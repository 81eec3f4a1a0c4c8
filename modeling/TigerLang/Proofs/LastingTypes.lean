import TigerLang.Proofs.ScopeStack
import TigerLang.Proofs.Traces

/-! The types of type names last. While the types of a block are declared and looked into, no write
takes back a declaration or changes a type that has been found, be it in the block or around it. -/

namespace TigerLang

def Scope.Keeps (scope scope' : Scope TypeBinding) : Prop :=
  ∀ name binding, scope.value? name = some binding →
    ∃ r, scope'.value? name = some { binding with resolved := r } ∧
      ∀ ty, binding.resolved = some ty → r = some ty

namespace Scope.Keeps
variable {scope scope' scope'' : Scope TypeBinding}

theorem refl (scope : Scope TypeBinding) : Scope.Keeps scope scope :=
  fun _ binding h => ⟨binding.resolved, h, fun _ hty => hty⟩

theorem all (scopes : List (Scope TypeBinding)) : List.Forall₂ Scope.Keeps scopes scopes :=
  List.forall₂_same.mpr fun scope _ => refl scope

theorem trans (h : Scope.Keeps scope scope') (h' : Scope.Keeps scope' scope'') :
    Scope.Keeps scope scope'' := by
  intro name binding hvalue
  obtain ⟨r, hr, hkept⟩ := h name binding hvalue
  obtain ⟨r', hr', hkept'⟩ := h' name _ hr
  exact ⟨r', hr', fun ty hty => hkept' ty (hkept ty hty)⟩

theorem bind_absent {name : String} (h : scope.value? name = none) (value : TypeBinding) :
    Scope.Keeps scope (scope.bind name value) := by
  intro other binding hvalue
  have hne : other ≠ name := by
    rintro rfl
    rw [h] at hvalue
    cases hvalue
  rw [Scope.value?_bind, if_neg hne]
  exact ⟨binding.resolved, hvalue, fun _ hty => hty⟩

end Scope.Keeps

/-- All scopes are still there. Names that are bound in one of them keep their definitions, and their
types once they have some. -/
def Checker.KeepsTypes (s s' : Checker) : Prop :=
  List.Forall₂ Scope.Keeps s.types.scopes s'.types.scopes

namespace Checker.KeepsTypes
variable {s s' s'' : Checker} {name : String}

theorem of_types (h : s'.types = s.types) : s.KeepsTypes s' := by
  unfold KeepsTypes
  rw [h]
  exact Scope.Keeps.all _

theorem trans (h : s.KeepsTypes s') (h' : s'.KeepsTypes s'') : s.KeepsTypes s'' := by
  unfold KeepsTypes at h h' ⊢
  generalize s.types.scopes = scopes, s'.types.scopes = scopes', s''.types.scopes = scopes'' at *
  induction h generalizing scopes'' with
  | nil => exact h'
  | cons hscope _ ih =>
    cases h' with
    | cons hscope' hscopes' => exact .cons (hscope.trans hscope') (ih _ hscopes')

theorem bind (h : s.types.hasHere name = false) (value : TypeBinding) :
    s.KeepsTypes { s with types := s.types.bind name value } := by
  have hscopes : ∃ outer, s.types.scopes = s.types.current :: outer := by
    unfold Scopes.scopes Scopes.current
    cases s.types.inner with
    | nil => exact ⟨[], rfl⟩
    | cons scope inner => exact ⟨inner ++ [s.types.root], rfl⟩
  obtain ⟨outer, hscopes⟩ := hscopes
  have habsent : s.types.current.value? name = none := by
    simpa [Scopes.hasHere, Scopes.here?] using h
  unfold KeepsTypes
  rw [Scopes.scopes_bind hscopes, hscopes]
  exact .cons (.bind_absent habsent value) (Scope.Keeps.all outer)

theorem settle {ty : Ty} (hold : ∀ binding, s.types.find? name = some binding →
      binding.resolved = none ∨ binding.resolved = some ty) :
    s.KeepsTypes ((CheckM.settle name ty).run s).2 := by
  cases hfind : s.types.find? name with
  | none => exact .of_types (Scopes.change_of_unbound _ hfind)
  | some binding =>
    obtain ⟨inner, scope, outer, hscopes, hvalue, hinner⟩ := List.findSome?_eq_some_iff.mp hfind
    have hsettled : Scope.Keeps scope (scope.bind name { binding with resolved := some ty }) :=
      fun _ _ hother => (Refines.settle hvalue (hold binding hfind)).kept hother
    unfold KeepsTypes
    change List.Forall₂ Scope.Keeps _ (s.types.change name _).scopes
    rw [Scopes.scopes_change _ hscopes hinner hvalue, hscopes]
    exact List.rel_append (Scope.Keeps.all inner) (.cons hsettled (Scope.Keeps.all outer))

end Checker.KeepsTypes

theorem Resolving.open_of_find? {b : TypeBlock} {start s : Checker} {unfinished : List String}
    {scope : Scope TypeBinding} (hb : b.Unresolved) (hs : Resolving b start unfinished scope s)
    {name : String} {definition : TypeExp} {declared : Position}
    (hfind : s.types.find? name = some ⟨some definition, none, declared⟩) :
    b.definition? name = some definition ∧ scope.resolved? name = none := by
  rw [hs.types, Scopes.find?_within] at hfind
  cases hvalue : scope.value? name with
  | none =>
    rw [hvalue, Option.none_or] at hfind
    simpa using hb.outer hfind
  | some binding =>
    rw [hvalue, Option.some_or] at hfind
    obtain rfl := Option.some.inj hfind
    refine ⟨?_, by simp [Scope.resolved?, hvalue]⟩
    cases hdeclared : b.declared.value? name with
    | none =>
      rw [hs.refines.value?_eq_none_iff.mpr hdeclared] at hvalue
      cases hvalue
    | some old =>
      obtain ⟨r, hr, -⟩ := hs.refines.kept hdeclared
      have hsame := congrArg TypeBinding.definition (Option.some.inj (hr.symm.trans hvalue))
      rw [TypeBlock.definition?, hdeclared, Option.bind_some]
      exact hsame

namespace Trace
variable {α β : Type} {s : Checker}

def Lasts {x : CheckM α} (t : Trace x) (s : Checker) : Prop :=
  (t.moments s).IsChain fun m m' => m.state.KeepsTypes m'.state

namespace Lasts
variable {x : CheckM α}

theorem observe (hx : Observes x) (s : Checker) : (Trace.observe hx).Lasts s :=
  .cons_cons (.of_types (hx.reports s).types) (.singleton _)

theorem write {f : Checker → α × Checker} (h : s.KeepsTypes (f s).2) : (Trace.write f).Lasts s :=
  .cons_cons h (.singleton _)

theorem bind {f : α → CheckM β} {t : Trace x} {next : ∀ a, Trace (f a)} (h : t.Lasts s)
    (hnext : (next (x.run s).1).Lasts (x.run s).2) : (t.bind next).Lasts s := by
  unfold Lasts moments
  rw [List.isChain_append]
  refine ⟨h, hnext, fun m hm m' hm' => .of_types ?_⟩
  have hlast : some m.state = some (x.run s).2 := by
    rw [← t.getLast_moments s, Option.mem_def.mp hm, Option.map_some]
  have hhead : some m'.state = some (x.run s).2 := by
    rw [← (next (x.run s).1).head_moments (x.run s).2, Option.mem_def.mp hm', Option.map_some]
  rw [Option.some.inj hlast, Option.some.inj hhead]

theorem ite {c : Prop} [Decidable c] {y : CheckM α} {yes : Trace x} {no : Trace y}
    (hyes : c → yes.Lasts s) (hno : ¬ c → no.Lasts s) : (Trace.ite c yes no).Lasts s := by
  unfold Lasts moments
  split
  · next hc => exact hyes hc
  · next hc => exact hno hc

theorem getThen {f : Checker → CheckM β} {next : ∀ a, Trace (f a)} (h : (next s).Lasts s) :
    (Trace.get.bind next).Lasts s := bind (observe _ s) h

end Lasts

theorem settle_lasts {name : String} {ty : Ty} (hold : ∀ binding,
      s.types.find? name = some binding → binding.resolved = none ∨ binding.resolved = some ty) :
    (settle name ty).Lasts s := .write (.settle hold)

theorem settleAll_lasts {loop : List String} {ty : Ty} (hold : ∀ name ∈ loop, ∀ binding,
      s.types.find? name = some binding → binding.resolved = none ∨ binding.resolved = some ty) :
    (settleAll ty loop).Lasts s := by
  induction loop generalizing s with
  | nil => exact .observe _ s
  | cons name loop ih =>
    refine (settle_lasts (hold name List.mem_cons_self)).bind (ih fun other hother binding hfind => ?_)
    have hchange : (s.types.change name fun entry => { entry with resolved := some ty }).find? other =
        some binding := hfind
    rw [Scopes.find?_change] at hchange
    split at hchange
    · obtain ⟨old, -, rfl⟩ := Option.map_eq_some_iff.mp hchange
      exact .inr rfl
    · exact hold other (List.mem_cons_of_mem _ hother) binding hchange

theorem declareTypes_lasts (decs : List Dec) (s : Checker) : (declareTypes decs).Lasts s := by
  induction decs generalizing s with
  | nil => exact .observe _ s
  | cons d decs ih =>
    cases d with
    | var node name typeName init => exact ih s
    | function node name params result body => exact ih s
    | type node name definition =>
      refine .getThen (.ite (fun _ => ?_) fun hnew => ?_)
      · exact .bind (.observe _ s) (ih _)
      · refine .bind (.write (.bind (by simpa using hnew) _)) (.bind (ih _) (.observe _ _))

section resolve
variable {b : TypeBlock} {start : Checker} {unfinished visiting : List String}
  {scope : Scope TypeBinding} {name : String} {resolve : String → Position → CheckM Ty}
  {t : ∀ name position, Trace (resolve name position)} {position : Position}

theorem resolveFields_lasts {fields : List Field} {found : List (String × Ty)}
    (hs : Resolving b start unfinished scope s)
    (hresolve : ∀ field ∈ fields, ∀ {scope' s'}, Resolving b start unfinished scope' s' →
      Refines scope scope' → ∀ position, (t field.typeName position).Lasts s' ∧
        Finds b start unfinished scope' s' field.typeName
          (b.FieldsGrounded ∧ b.Grounded field.typeName)
          ((resolve field.typeName position).run s')) :
    (resolveFields t found fields).Lasts s := by
  induction fields generalizing found scope s with
  | nil => exact .observe _ s
  | cons field fields ih =>
    refine .ite (fun _ => ?_) fun _ => ?_
    · refine .bind (.observe _ s) (ih (hs.report _ _) fun other hother {_ _} hs' hscope => ?_)
      exact hresolve other (List.mem_cons_of_mem _ hother) hs' hscope
    · obtain ⟨hfirst, scope', hfound⟩ :=
        hresolve field List.mem_cons_self hs (.refl _) field.node.span.start
      refine .bind hfirst (ih hfound.resolving fun other hother {_ _} hs' hscope => ?_)
      exact hresolve other (List.mem_cons_of_mem _ hother) hs' (hfound.refines.trans hscope)

theorem resolveDefinition_lasts_next {definition : TypeExp} {target : String}
    (hname : b.definition? name = some definition) (hnext : b.next? name = some target)
    (ht : ∀ position, (t target position).Lasts s) : (resolveDefinition t name definition).Lasts s := by
  cases definition with
  | name span other =>
    obtain rfl : other = target := by simpa [TypeBlock.next?, hname] using hnext
    exact ht _
  | array span other =>
    obtain rfl : other = target := by simpa [TypeBlock.next?, hname] using hnext
    refine .bind (ht _) (.bind (.getThen (.observe _ _)) ?_)
    generalize ((CheckM.resolved? name).run _).1 = found
    cases found with
    | some ty => exact .observe _ _
    | none =>
      exact .ite (fun _ => .observe _ _) fun _ => .bind (.write (.of_types rfl)) (.observe _ _)
  | record span fields => simp [TypeBlock.next?, hname] at hnext

theorem resolveDefinition_lasts_record {span : Span} {fields : List Field}
    (hs : Resolving b start unfinished scope s)
    (hname : b.definition? name = some (.record span fields)) (hopen : scope.resolved? name = none)
    (hresolve : ∀ field ∈ fields, ∀ {scope' s'}, Resolving b start (name :: unfinished) scope' s' →
      Refines scope scope' → (scope'.resolved? name).isSome → ∀ position,
        (t field.typeName position).Lasts s' ∧
        Finds b start (name :: unfinished) scope' s' field.typeName
          (b.FieldsGrounded ∧ b.Grounded field.typeName)
          ((resolve field.typeName position).run s')) :
    (resolveDefinition t name (.record span fields)).Lasts s := by
  obtain ⟨binding, hvalue, hbinding⟩ :
      ∃ binding, scope.value? name = some binding ∧ binding.resolved = none := by
    obtain ⟨declared, -, -, hvalue⟩ := hs.bound hname
    exact ⟨_, hvalue, hopen⟩
  set id := s.registry.records.size
  set opened := scope.bind name { binding with resolved := some (.record id) }
  set numbered : Checker := { s with registry := (s.registry.addRecord name).2 }
  have hscope : Refines scope opened := Refines.settle hvalue (.inl hbinding)
  have hid : opened.resolved? name = some (.record id) := by
    simp [opened, Scope.resolved?_settle]
  have hopened : Resolving b start (name :: unfinished) opened
      ((CheckM.settle name (.record id)).run numbered).2 := by
    rw [CheckM.settle_run (s := numbered) hs.types hvalue]
    exact CheckM.openRecord_resolving hs hname hvalue hbinding
  refine .bind (.write (.of_types rfl)) (.bind (settle_lasts fun entry hentry => .inl ?_) ?_)
  · have hfind : s.types.find? name = some entry := hentry
    rw [hs.types, Scopes.find?_within, hvalue, Option.some_or] at hfind
    exact Option.some.inj hfind ▸ hbinding
  · refine .bind (resolveFields_lasts hopened ?_)
      (.bind (.write (.of_types rfl)) (.observe _ _))
    intro field hfield scope' s' hs' hscope' position
    refine hresolve field hfield hs' (hscope.trans hscope') ?_ position
    rw [hscope'.resolved? hid]
    rfl

/-- How to begin anew at a name, as far as that is called for. -/
def RestartsLast (b : TypeBlock) (start : Checker)
    (t : ∀ name position, Trace (resolve name position)) : Prop :=
  ∀ {unfinished scope s name path}, Resolving b start unfinished scope s →
    List.IsChain (fun m n => b.next? m = some n) (name :: path) →
    (∃ m ∈ path, ∃ ty, scope.resolved? m = some ty) → (name :: path).Nodup →
    ∀ position, (t name position).Lasts s

theorem resolveLoop_lasts (ht : RestartsLast b start t) (hs : Resolving b start unfinished scope s)
    (htrail : Trail b scope visiting name) (hmem : name ∈ visiting)
    (hopen : scope.resolved? name = none) (declared : Position) :
    (resolveLoop t name declared position (visiting.dropWhile (· != name))).Lasts s := by
  refine .getThen (.ite (fun hany => ?_) fun hany => ?_)
  · obtain ⟨path, hpath, hend, hnodup⟩ :=
      CheckM.straight_of_declaresRecord hs htrail hmem hopen hany
    exact ht hs hpath hend hnodup position
  · obtain ⟨-, -, -, hdeclared, hlost⟩ :=
      CheckM.closed_of_not_declaresRecord hs htrail hmem hopen rfl hany
    refine .bind (.observe _ s) (.bind (settleAll_lasts fun m hm binding hfind => ?_) (.observe _ _))
    obtain ⟨definition, hdefinition⟩ := hdeclared m hm
    obtain ⟨position, hentry⟩ := (hs.report (.cyclicType name) declared).entry hdefinition
    rw [hentry] at hfind
    exact Option.some.inj hfind ▸ hlost m hm

theorem walk_lasts_succ {fuel : Nat}
    (hagain : ∀ {definition declared}, s.types.find? name = some ⟨some definition, none, declared⟩ →
      name ∈ visiting →
      (resolveLoop t name declared position (visiting.dropWhile (· != name))).Lasts s)
    (hon : ∀ {definition declared}, s.types.find? name = some ⟨some definition, none, declared⟩ →
      name ∉ visiting →
      (resolveDefinition (walk t fuel (visiting ++ [name])) name definition).Lasts s) :
    (walk t (fuel + 1) visiting name position).Lasts s := by
  refine .getThen ?_
  cases hfind : s.types.find? name with
  | none => exact .bind (.observe _ s) (.observe _ _)
  | some entry =>
    obtain ⟨definition, resolved, declared⟩ := entry
    cases resolved with
    | some ty => cases definition <;> exact .observe _ s
    | none =>
      cases definition with
      | none => exact .observe _ s
      | some definition =>
        refine .ite (hagain hfind) fun hmem => .bind (hon hfind hmem) (.bind (.getThen (.observe _ _))
          (.bind (settle_lasts fun binding hbinding => ?_)
            (.getThen (.bind (.observe _ _) (.observe _ _)))))
        -- The name keeps the type that it has got on the way, if any.
        set s' := ((CheckM.resolveDefinition _ name definition).run s).2
        have hresolved : ((CheckM.resolved? name).run s').1 =
            (s'.types.find? name).bind TypeBinding.resolved := rfl
        have hfound : s'.types.find? name = some binding := hbinding
        rw [hresolved, hfound, Option.bind_some]
        cases binding.resolved with
        | none => exact .inl rfl
        | some ty => exact .inr rfl

theorem walk_lasts_straight (hb : b.Unresolved) {path : List String} {fuel : Nat}
    (hs : Resolving b start unfinished scope s) (hpath : ClearPath b scope visiting name path)
    (hfuel : path.length < fuel) : (walk t fuel visiting name position).Lasts s := by
  induction path generalizing name visiting fuel position with
  | nil =>
    obtain ⟨fuel, rfl⟩ := Nat.exists_eq_add_one_of_ne_zero (Nat.ne_zero_of_lt hfuel)
    obtain ⟨m, hm, ty, hty⟩ := hpath.ends
    obtain rfl := List.mem_singleton.mp hm
    refine walk_lasts_succ (fun hfind => ?_) fun hfind => ?_
    · simp [(hs.open_of_find? hb hfind).2] at hty
    · simp [(hs.open_of_find? hb hfind).2] at hty
  | cons target rest ih =>
    obtain ⟨fuel, rfl⟩ := Nat.exists_eq_add_one_of_ne_zero (Nat.ne_zero_of_lt hfuel)
    refine walk_lasts_succ (fun _ hmem => ?_) fun hfind _ => ?_
    · exact absurd hmem (hpath.away name List.mem_cons_self)
    · obtain ⟨hname, hopen⟩ := hs.open_of_find? hb hfind
      exact resolveDefinition_lasts_next hname (List.isChain_cons_cons.mp hpath.chain).1
        fun position => ih (hpath.tail hopen) (by simpa using hfuel)

theorem walk_lasts (hb : b.Unresolved) (hrestart : CheckM.Restarts b start resolve)
    (ht : RestartsLast b start t) {fuel : Nat} (hs : Resolving b start unfinished scope s)
    (htrail : Trail b scope visiting name)
    (hfuel : b.declared.length < fuel + visiting.length) :
    (walk t fuel visiting name position).Lasts s := by
  induction fuel generalizing unfinished scope s visiting name position with
  | zero => exact .observe _ s
  | succ fuel ih =>
    refine walk_lasts_succ (fun {_ declared} hfind hmem => ?_) fun {definition _} hfind hmem => ?_
    · exact resolveLoop_lasts ht hs htrail hmem (hs.open_of_find? hb hfind).2 declared
    · obtain ⟨hname, hopen⟩ := hs.open_of_find? hb hfind
      have hfuel' : b.declared.length < fuel + (visiting ++ [name]).length := by
        rw [List.length_append, List.length_singleton]
        omega
      cases hnext : b.next? name with
      | some target =>
        exact resolveDefinition_lasts_next hname hnext fun position =>
          ih hs (htrail.next hmem hnext) hfuel'
      | none =>
        cases definition with
        | name span target => simp [TypeBlock.next?, hname] at hnext
        | array span element => simp [TypeBlock.next?, hname] at hnext
        | record span fields =>
          refine resolveDefinition_lasts_record hs hname hopen
            fun field hfield {_ _} hs' hscope hsome position => ?_
          have hpush := (htrail.refine hscope).field hmem hname hfield hsome
          exact ⟨ih hs' hpush hfuel', CheckM.walk_finds hb hrestart hs' hpush hfuel'⟩

end resolve

section block
variable {b : TypeBlock} {start : Checker} {unfinished : List String} {scope : Scope TypeBinding}

theorem freshWalk_lasts (hb : b.Unresolved) {fuel : Nat} (hfuel : b.declared.length < fuel)
    (rounds : Nat) : RestartsLast b start (freshWalk fuel (rounds + 1)) := by
  intro unfinished scope s name path hs hpath hend hnodup position
  obtain ⟨m, hm, ty, hty⟩ := hend
  have hlength := CheckM.straight_length_le hpath hnodup
  exact walk_lasts_straight hb hs ⟨hpath, ⟨m, List.mem_cons_of_mem _ hm, ty, hty⟩, hnodup, by simp⟩
    (Nat.lt_of_le_of_lt hlength hfuel)

theorem typeNamed_lasts (hb : b.Unresolved) (hs : Resolving b start unfinished scope s)
    (name : String) (position : Position) : (typeNamed name position).Lasts s := by
  have hlt : b.declared.length < s.types.size + 1 :=
    Nat.lt_succ_of_le (CheckM.declared_length_le hb hs)
  exact .getThen (walk_lasts hb (CheckM.freshWalk_restarts hlt 1) (freshWalk_lasts hb hlt 1) hs
    (.nil b scope name) hlt)

theorem resolveTypes_lasts (hb : b.Unresolved) (names : List (String × Position))
    (hs : Resolving b start unfinished scope s) : (resolveTypes names).Lasts s := by
  induction names generalizing scope s with
  | nil => exact .observe _ s
  | cons name names ih =>
    obtain ⟨scope', hfound⟩ := CheckM.typeNamed_finds hb hs name.1 name.2
    exact .bind (.bind (typeNamed_lasts hb hs name.1 name.2) (.observe _ _)) (ih hfound.resolving)

end block

theorem Lasts.pairwise {x : CheckM α} {t : Trace x} (h : t.Lasts s) :
    (t.moments s).Pairwise fun m m' => m.state.KeepsTypes m'.state := by
  have htrans : Trans (fun m m' : Moment => m.state.KeepsTypes m'.state)
      (fun m m' : Moment => m.state.KeepsTypes m'.state)
      (fun m m' : Moment => m.state.KeepsTypes m'.state) := ⟨fun h h' => h.trans h'⟩
  exact List.isChain_iff_pairwise.mp h

end Trace

theorem CheckM.typeOf?_resolveTypes_append {b : TypeBlock} {start s : Checker}
    {scope : Scope TypeBinding} (hb : b.Unresolved) (hs : Resolving b start [] scope s)
    (first rest : List (String × Position)) {name : String} {ty : Ty}
    (hty : typeOf? ((resolveTypes first).run s).2.types name = some ty) :
    typeOf? ((resolveTypes (first ++ rest)).run s).2.types name = some ty := by
  obtain ⟨scope₁, hs₁, -⟩ := resolveTypes_finds hb first hs
  obtain ⟨scope₂, hs₂, hscope, -⟩ := resolveTypes_finds hb rest hs₁
  have hrun : (resolveTypes (first ++ rest)).run s =
      (resolveTypes rest).run ((resolveTypes first).run s).2 := by
    rw [resolveTypes, run_forM_append, resolveTypes, resolveTypes]
  rw [hs₁.types] at hty
  rw [hrun, hs₂.types]
  exact hscope.typeOf? hty

namespace CheckM

/-- The types of a block are the ones that its declarations call for, whatever came before. Its
names are looked into one after the other, and what has a type after some of them keeps it. No write
on the way takes a type back that a name in some scope has got. -/
theorem resolveTypes_canonical (s : Checker) (hs : AllResolved s.types) (decs : List Dec) :
    let done := ((declareTypes decs >>= resolveTypes).run (enterScopes.run s).2).2
    CanonicalTypes decs s done ∧ AllResolved done.types ∧
      (∃ declared, (declareTypes decs).run (enterScopes.run s).2 =
          ((declaredTypes decs).map fun entry => (entry.1, entry.2.position), declared) ∧
        ∀ first rest, first ++ rest =
            (declaredTypes decs).map (fun entry => (entry.1, entry.2.position)) →
          ∀ name ty, typeOf? ((resolveTypes first).run declared).2.types name = some ty →
            typeOf? done.types name = some ty) ∧
      (((Trace.declareTypes decs).bind Trace.resolveTypes).moments (enterScopes.run s).2).Pairwise
        fun m m' => m.state.KeepsTypes m'.state := by
  intro done
  have hentered : (enterScopes.run s).2.types = s.types.within [] := rfl
  have hb := declaredTypes_unresolved hs decs
  obtain ⟨scope, hsettled⟩ := declareTypes_resolveTypes hs hentered decs
  obtain ⟨diagnostics, events, hrun, hdiagnostics, hevents, -⟩ := declareTypes_run decs hentered
  have hresolving := resolving_entered hb hdiagnostics hevents
  have hregistry : (enterScopes.run s).2.registry = s.registry := rfl
  refine ⟨hsettled.canonicalTypes hs hregistry, ?_,
    ⟨_, hrun, fun first rest hsplit name ty hty => ?_⟩, ?_⟩
  · rw [hsettled.resolving.types]
    exact hs.within hsettled.settled
  · have hdone : done = ((resolveTypes (first ++ rest)).run
        ((declareTypes decs).run (enterScopes.run s).2).2).2 := by
      rw [hsplit, hrun]
      change ((declareTypes decs >>= resolveTypes).run (enterScopes.run s).2).2 = _
      rw [run_bind, hrun]
      rfl
    rw [hdone, hrun]
    exact typeOf?_resolveTypes_append hb hresolving first rest hty
  · refine (Trace.Lasts.bind (Trace.declareTypes_lasts decs _) ?_).pairwise
    rw [hrun]
    exact Trace.resolveTypes_lasts hb _ hresolving

theorem resolveTypes_canonical_forest :
    AllResolved Checker.initial.types ∧
      CanonicalTypes
        [.type default "tree" (.record default
            [⟨default, "below", "forest"⟩, ⟨default, "below", "int"⟩]),
          .type default "forest" (.array default "tree"),
          .type default "wheel" (.array default "spoke"),
          .type default "spoke" (.name default "wheel")]
        .initial
        ((declareTypes
          [.type default "tree" (.record default
              [⟨default, "below", "forest"⟩, ⟨default, "below", "int"⟩]),
            .type default "forest" (.array default "tree"),
            .type default "wheel" (.array default "spoke"),
            .type default "spoke" (.name default "wheel")] >>= resolveTypes).run
          (enterScopes.run .initial).2).2 :=
  ⟨allResolved_initial, (resolveTypes_canonical .initial allResolved_initial _).1⟩

end CheckM

end TigerLang
