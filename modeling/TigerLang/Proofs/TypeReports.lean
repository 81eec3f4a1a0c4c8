import TigerLang.Proofs.TypeFaults

/-! The reports about the type declarations of a block. However its names are walked, what is wrong
with a declaration is reported when its name gets a type, and a cycle when all its names do. -/

namespace TigerLang

open TypeBlock

section resolving
variable {b : TypeBlock} {start s : Checker} {unfinished : List String}
  {scope : Scope TypeBinding} {name : String}

theorem typeOf?_within (outer : Scopes TypeBinding) (scope : Scope TypeBinding) (name : String) :
    typeOf? (outer.within scope) name =
      ((scope.value? name).or (outer.find? name)).bind TypeBinding.resolved := by
  rw [typeOf?, Scopes.find?_within]

theorem Resolving.typeOf?_eq (hs : Resolving b start unfinished scope s) {definition : TypeExp}
    (hname : b.definition? name = some definition) :
    typeOf? s.types name = scope.resolved? name := by
  obtain ⟨declared, -, -, hvalue⟩ := hs.bound hname
  rw [hs.types, typeOf?_within, Scope.resolved?, hvalue, Option.some_or]

theorem Resolving.isSome_of_stands (hs : Resolving b start unfinished scope s)
    {definition : TypeExp} (hname : b.definition? name = some definition) {ty : Ty}
    (h : Stands (b.outer.within scope) name ty) : (typeOf? s.types name).isSome := by
  rw [hs.typeOf?_eq hname, (hs.refines.stands_iff hname).mp h]
  rfl

theorem Resolving.closed (hs : Resolving b start unfinished scope s) : b.Closed s := by
  intro m n definition hnext hn hsome
  obtain ⟨definition', hm, -⟩ := declared_of_next? hnext
  rw [hs.typeOf?_eq hm] at hsome
  obtain ⟨ty, hty⟩ := Option.isSome_iff_exists.mp hsome
  have hfits := hs.sound.fits hm hty
  cases definition' with
  | name span target =>
    obtain rfl : target = n := by simpa [next?, hm] using hnext
    exact hs.isSome_of_stands hn hfits
  | array span element =>
    obtain rfl : element = n := by simpa [next?, hm] using hnext
    rcases hfits with ⟨-, hstands⟩ | ⟨_, _, -, -, -, -, hstands⟩
    · exact hs.isSome_of_stands hn hstands
    · exact hs.isSome_of_stands hn hstands
  | record span fields => simp [next?, hm] at hnext

theorem typeOf?_settle {outer : Scopes TypeBinding} (scope : Scope TypeBinding)
    (binding : TypeBinding) (name : String) (ty : Ty) (n : String) :
    typeOf? (outer.within (scope.bind name { binding with resolved := some ty })) n =
      if n ∈ [name] then some ty else typeOf? (outer.within scope) n := by
  rw [typeOf?_within, typeOf?_within, Scope.value?_bind]
  by_cases heq : n = name <;> simp [heq]

theorem Refines.typeOf?_loop {scope' : Scope TypeBinding} {loop : List String} {ty : Ty}
    (h : Refines scope scope') (hloop : ∀ m ∈ loop, scope.value? m ≠ none)
    (hresolved : ∀ m, scope'.resolved? m = if m ∈ loop then some ty else scope.resolved? m)
    (outer : Scopes TypeBinding) (n : String) :
    TigerLang.typeOf? (outer.within scope') n =
      if n ∈ loop then some ty else TigerLang.typeOf? (outer.within scope) n := by
  rw [typeOf?_within, typeOf?_within]
  cases hvalue : scope.value? n with
  | none =>
    have hnot : n ∉ loop := fun hmem => hloop n hmem hvalue
    rw [h.value?_eq_none_iff.mpr hvalue, if_neg hnot]
  | some binding =>
    obtain ⟨r, hr, -⟩ := h.kept hvalue
    have hn := hresolved n
    rw [Scope.resolved?, Scope.resolved?, hr, hvalue] at hn
    rw [hr, Option.some_or, Option.some_or]
    exact hn

end resolving

namespace CheckM
variable {b : TypeBlock} {start s : Checker} {unfinished visiting : List String}
  {scope : Scope TypeBinding} {name target : String} {definition : TypeExp}

theorem conclude_accounts_settled {binding : TypeBinding} {ty : Ty}
    (htypes : s.types = b.outer.within scope) (hvalue : scope.value? name = some binding)
    (hty : binding.resolved = some ty) (found : Ty) :
    b.Accounts s ((conclude name found).run s).2 [] [] := by
  obtain ⟨event, hrun⟩ := conclude_run htypes hvalue found
  have hself : ({ binding with resolved := some (binding.resolved.getD found) } : TypeBinding) =
      binding := by rw [hty, Option.getD_some, ← hty]
  rw [hrun, hself, Scope.bind_self hvalue, ← htypes]
  exact .same rfl rfl

theorem conclude_accounts_open {binding : TypeBinding} (hb : b.Unresolved)
    (htypes : s.types = b.outer.within scope) (hvalue : scope.value? name = some binding)
    (hopen : binding.resolved = none) {declared : TypeBinding}
    (hdeclared : b.declared.value? name = some declared) (hcycle : ¬ b.OnCycle name) (found : Ty) :
    b.Accounts s ((conclude name found).run s).2 [] (b.faults (name, declared)) := by
  obtain ⟨event, hrun⟩ := conclude_run htypes hvalue found
  have hnone : typeOf? s.types name = none := by
    rw [htypes, typeOf?_within, hvalue, Option.some_or, Option.bind_some, hopen]
  rw [hrun]
  apply Accounts.settles hb.nodup (Scope.mem_of_value? hdeclared) hcycle hnone
  · intro n
    rw [htypes]
    exact typeOf?_settle scope binding name _ n
  · rfl

variable {resolve : String → Position → CheckM Ty}

theorem lookInto_next_run (hname : b.definition? name = some definition)
    (hnext : b.next? name = some target) :
    ∃ found registry, (resolveDefinition resolve name definition >>= conclude name).run s =
      (conclude name found).run
        { ((resolve target definition.span.start).run s).2 with registry } := by
  cases definition with
  | name span m =>
    obtain rfl : m = target := by simpa [next?, hname] using hnext
    exact ⟨_, _, rfl⟩
  | array span m =>
    obtain rfl : m = target := by simpa [next?, hname] using hnext
    set s' := ((resolve m span.start).run s).2
    set element := ((resolve m span.start).run s).1
    have hrun : (resolveDefinition resolve name (.array span m) >>= conclude name).run s =
        (arrayOf name element ((s'.types.find? name).bind TypeBinding.resolved) >>=
          conclude name).run s' := rfl
    rw [hrun]
    cases (s'.types.find? name).bind TypeBinding.resolved with
    | some ty => exact ⟨ty, s'.registry, rfl⟩
    | none =>
      by_cases herror : element.isError
      · refine ⟨.error, s'.registry, ?_⟩
        simp only [arrayOf, if_pos herror]
        rfl
      · refine ⟨.array s'.registry.arrays.size, (s'.registry.addArray name element).2, ?_⟩
        simp only [arrayOf, if_neg herror]
        rfl
  | record span fields => simp [next?, hname] at hnext

theorem lookInto_next_accounts (hb : b.Unresolved) (hs : Resolving b start unfinished scope s)
    (hname : b.definition? name = some definition) (hnext : b.next? name = some target)
    (hopen : scope.resolved? name = none) {silent : Prop}
    (hfinds : ∀ position, Finds b start unfinished scope s target silent
      ((resolve target position).run s))
    (haccounts : ∀ position, b.Accounts s ((resolve target position).run s).2
      (b.unknownAt target position) [])
    (hidle : ∀ position, b.definition? target = none →
      ((resolve target position).run s).2.types = s.types) :
    b.Accounts s ((resolveDefinition resolve name definition >>= conclude name).run s).2 [] [] := by
  obtain ⟨found, registry, hrun⟩ : ∃ found registry,
      (resolveDefinition resolve name definition >>= conclude name).run s = (conclude name found).run
        { ((resolve target definition.span.start).run s).2 with registry } :=
    lookInto_next_run hname hnext
  rw [hrun]
  obtain ⟨scope', hfound⟩ := hfinds definition.span.start
  have htarget := haccounts definition.span.start
  have hidle := hidle definition.span.start
  set s' := ((resolve target definition.span.start).run s).2
  have hs' : Resolving b start unfinished scope' s' := hfound.resolving
  have hregister : b.Accounts s' { s' with registry } [] [] := .same rfl rfl
  obtain ⟨declared, hdeclared, hdefinition, hvalue⟩ := hs'.bound hname
  have hresolved : typeOf? s'.types name = scope'.resolved? name := hs'.typeOf?_eq hname
  generalize scope'.resolved? name = r at hvalue hresolved
  have hbefore : typeOf? s.types name = none := by rw [hs.typeOf?_eq hname, hopen]
  cases r with
  | some ty =>
    -- The name has got a type on the way, so there was a way on from the target.
    have hknown : b.unknownAt target definition.span.start = [] := by
      cases hdeclares : b.definition? target with
      | none =>
        rw [hidle hdeclares, hbefore] at hresolved
        cases hresolved
      | some other => exact unknownAt_of_definition? hdeclares _
    have hconclude :=
      conclude_accounts_settled (s := { s' with registry }) hs'.types hvalue rfl found
    rw [hknown] at htarget
    exact (htarget.trans hregister hs'.closed).trans hconclude hs'.closed
  | none =>
    -- The target has a type by now and the name has none, so the way on does not come back to it.
    have hcycle : ¬ b.OnCycle name := by
      intro honCycle
      obtain ⟨target', hnext', hleads⟩ := honCycle.next?
      obtain rfl : target = target' := Option.some.inj (hnext.symm.trans hnext')
      have hdeclares : ∃ other, b.definition? target = some other := by
        rcases Relation.ReflTransGen.cases_head hleads with rfl | ⟨_, hstep, -⟩
        · exact ⟨definition, hname⟩
        · obtain ⟨other, hother, -⟩ := declared_of_next? hstep
          exact ⟨other, hother⟩
      obtain ⟨other, hother⟩ := hdeclares
      have hsome := hs'.isSome_of_stands hother hfound.stands
      simpa [hresolved] using hs'.closed.leads hleads hname hsome
    have hconclude := conclude_accounts_open (s := { s' with registry }) hb hs'.types hvalue rfl
      hdeclared hcycle found
    have hfaults : b.faults (name, declared) = b.unknownAt target definition.span.start :=
      faults_of_next? hdefinition hname hnext
    rw [hfaults] at hconclude
    refine ((htarget.trans hregister hs'.closed).trans hconclude hs'.closed).balance ?_
    simp

variable {restart : String → Position → CheckM Ty} {position : Position} {fuel : Nat}

theorem find?_of_undeclared (hb : b.Unresolved) (hs : Resolving b start unfinished scope s)
    (hname : b.definition? name = none) :
    b.declared.value? name = none ∧ s.types.find? name = b.outer.find? name := by
  have hdeclared : b.declared.value? name = none := by
    cases hvalue : b.declared.value? name with
    | none => rfl
    | some binding =>
      have hsome := (hb.open_ hvalue).2
      rw [definition?, hvalue, Option.bind_some] at hname
      simp [hname] at hsome
  refine ⟨hdeclared, ?_⟩
  rw [hs.types, Scopes.find?_within, hs.refines.value?_eq_none_iff.mpr hdeclared, Option.none_or]

theorem walk_undeclared (hb : b.Unresolved) (hs : Resolving b start unfinished scope s)
    (hname : b.definition? name = none) :
    ((walk restart (fuel + 1) visiting name position).run s).2.types = s.types ∧
      b.Accounts s ((walk restart (fuel + 1) visiting name position).run s).2
        (b.unknownAt name position) [] := by
  obtain ⟨hdeclared, hfind⟩ := find?_of_undeclared hb hs hname
  cases houter : b.outer.find? name with
  | some binding =>
    obtain ⟨ty, hty⟩ := Option.isSome_iff_exists.mp (hb.outer houter)
    have hknown : b.unknownAt name position = [] := if_pos (by simp [houter])
    rw [walk_settled (hfind.trans houter) hty, hknown]
    exact ⟨rfl, .same rfl rfl⟩
  | none =>
    have hunknown : b.unknownAt name position = [⟨.undefinedName .type name, position⟩] :=
      if_neg (by simp [hdeclared, houter])
    have hpush : ((report (.undefinedName .type name) position).run s).2.diagnostics.toList =
        s.diagnostics.toList ++ [⟨.undefinedName .type name, position⟩] := Array.toList_push
    rw [walk_unknown (hfind.trans houter), hunknown]
    exact ⟨rfl, .reports rfl hpush⟩

theorem walk_idle (hb : b.Unresolved) (hs : Resolving b start unfinished scope s)
    (hname : b.definition? name = none) :
    ((walk restart fuel visiting name position).run s).2.types = s.types := by
  cases fuel with
  | zero => rfl
  | succ fuel => exact (walk_undeclared hb hs hname).1

theorem walk_settled_accounts (hs : Resolving b start unfinished scope s)
    (hname : b.definition? name = some definition) {ty : Ty}
    (hty : scope.resolved? name = some ty) :
    b.Accounts s ((walk restart (fuel + 1) visiting name position).run s).2
      (b.unknownAt name position) [] := by
  obtain ⟨declared, hentry⟩ := hs.entry hname
  rw [walk_settled hentry hty, unknownAt_of_definition? hname]
  exact .same rfl rfl

theorem walk_straight_accounts (hb : b.Unresolved) {path : List String}
    (hs : Resolving b start unfinished scope s) (hpath : ClearPath b scope visiting name path)
    (hfuel : path.length < fuel) :
    b.Accounts s ((walk restart fuel visiting name position).run s).2
      (b.unknownAt name position) [] := by
  induction path generalizing name visiting fuel position with
  | nil =>
    obtain ⟨fuel, rfl⟩ := Nat.exists_eq_add_one_of_ne_zero (Nat.ne_of_gt hfuel)
    obtain ⟨m, hm, ty, hty⟩ := hpath.ends
    obtain rfl := List.mem_singleton.mp hm
    obtain ⟨binding, hvalue, hresolved⟩ := Option.bind_eq_some_iff.mp hty
    have hfind : s.types.find? m = some binding := by
      rw [hs.types, Scopes.find?_within, hvalue, Option.some_or]
    have hdeclared : b.declared.value? m ≠ none := fun hnone => by
      rw [hs.refines.value?_eq_none_iff.mpr hnone] at hvalue
      cases hvalue
    have hknown : b.unknownAt m position = [] :=
      if_pos (by simp [Option.isSome_iff_ne_none, hdeclared])
    rw [walk_settled hfind hresolved, hknown]
    exact .same rfl rfl
  | cons target rest ih =>
    obtain ⟨fuel, rfl⟩ : ∃ n, fuel = n + 1 :=
      Nat.exists_eq_add_one_of_ne_zero (Nat.ne_of_gt (Nat.lt_of_le_of_lt (Nat.zero_le _) hfuel))
    have hnext : b.next? name = some target := (List.isChain_cons_cons.mp hpath.chain).1
    obtain ⟨definition, hname, -⟩ := declared_of_next? hnext
    cases hresolved : scope.resolved? name with
    | some ty => exact walk_settled_accounts hs hname hresolved
    | none =>
      obtain ⟨declared, hentry⟩ := hs.entry hname
      rw [hresolved] at hentry
      rw [walk_on hentry (hpath.away name List.mem_cons_self), unknownAt_of_definition? hname]
      have hrest := hpath.tail hresolved
      have hfuel' : rest.length < fuel := by simpa using hfuel
      exact lookInto_next_accounts hb hs hname hnext hresolved
        (fun _ => walk_straight hs hrest hfuel') (fun _ => ih hrest hfuel')
        (fun _ hundeclared => walk_idle hb hs hundeclared)

/-- Beginning anew at a name from which a straight path leads to a name with a type is accounted
for. -/
def Recounts (b : TypeBlock) (start : Checker) (restart : String → Position → CheckM Ty) : Prop :=
  ∀ {unfinished scope s name path}, Resolving b start unfinished scope s →
    List.IsChain (fun m n => b.next? m = some n) (name :: path) →
    (∃ m ∈ path, ∃ ty, scope.resolved? m = some ty) → (name :: path).Nodup →
    ∀ position, b.Accounts s ((restart name position).run s).2 (b.unknownAt name position) []

theorem freshWalk_recounts (hb : b.Unresolved) (hfuel : b.declared.length < fuel) (rounds : Nat) :
    Recounts b start (freshWalk fuel (rounds + 1)) := by
  intro unfinished scope s name path hs hpath hend hnodup position
  obtain ⟨m, hm, ty, hty⟩ := hend
  have hlength := straight_length_le hpath hnodup
  exact walk_straight_accounts hb hs
    ⟨hpath, ⟨m, List.mem_cons_of_mem _ hm, ty, hty⟩, hnodup, by simp⟩
    (Nat.lt_of_le_of_lt hlength hfuel)

theorem resolveLoop_accounts (hb : b.Unresolved) (hrecounts : Recounts b start restart)
    (hs : Resolving b start unfinished scope s) (htrail : Trail b scope visiting name)
    (hmem : name ∈ visiting) (hname : b.definition? name = some definition)
    (hopen : scope.resolved? name = none) {binding : TypeBinding}
    (hdeclared : b.declared.value? name = some binding) :
    b.Accounts s ((resolveLoop restart name binding.position position
      (visiting.dropWhile (· != name))).run s).2 (b.unknownAt name position) [] := by
  rcases resolveLoop_cases hs htrail hmem hopen binding.position with
    ⟨path, hstraight, hend, hnodup, hrun⟩ |
    ⟨loop, scope', hself, hloop, hleads, hscope, hresolved, hrun⟩
  · rw [hrun]
    exact hrecounts hs hstraight hend hnodup position
  · rw [hrun, unknownAt_of_definition? hname]
    have hnone : ∀ m ∈ loop, typeOf? s.types m = none := by
      intro m hm
      rw [← Option.not_isSome_iff_eq_none]
      intro hsome
      have hback := hs.closed.leads (hleads m hm) hname hsome
      rw [hs.typeOf?_eq hname, hopen] at hback
      cases hback
    apply Accounts.settlesLoop hb.nodup (Scope.mem_of_value? hdeclared) hself hloop hleads hnone
    · intro n
      rw [hs.types]
      refine hscope.typeOf?_loop (fun m hm hvalue => ?_) hresolved b.outer n
      obtain ⟨target, -, hnext⟩ := hloop m hm
      obtain ⟨other, hother, -⟩ := declared_of_next? hnext
      obtain ⟨entry, hentry, -⟩ := Option.bind_eq_some_iff.mp hother
      rw [hs.refines.value?_eq_none_iff.mp hvalue] at hentry
      cases hentry
    · exact Array.toList_push

def fieldFaults (b : TypeBlock) (seen : List String) (fields : List Field) : List Diagnostic :=
  (firstNamed Field.name seen fields).flatMap
      (fun field => b.unknownAt field.typeName field.node.span.start) ++
    (laterNamed Field.name seen fields).map
      fun field => ⟨.redefinition .field field.name, field.node.span.start⟩

theorem resolveFields_accounts {fields : List Field} {found : List (String × Ty)}
    {seen : List String} (hseen : ∀ n, n ∈ seen ↔ n ∈ found.map Prod.fst)
    (hs : Resolving b start unfinished scope s) {silent : Field → Prop}
    (hfinds : ∀ field ∈ fields, ∀ {scope' s'}, Resolving b start unfinished scope' s' →
      Refines scope scope' → ∀ position, Finds b start unfinished scope' s' field.typeName
        (silent field) ((resolve field.typeName position).run s'))
    (haccounts : ∀ field ∈ fields, ∀ {scope' s'}, Resolving b start unfinished scope' s' →
      Refines scope scope' → ∀ position, b.Accounts s' ((resolve field.typeName position).run s').2
        (b.unknownAt field.typeName position) []) :
    b.Accounts s ((resolveFields resolve found fields).run s).2 (fieldFaults b seen fields) [] := by
  induction fields generalizing found seen scope s with
  | nil => exact .same rfl rfl
  | cons field fields ih =>
    have hrun : (resolveFields resolve found (field :: fields)).run s =
        (if found.any (fun typed => typed.1 == field.name) then do
          report (.redefinition .field field.name) field.node.span.start
          resolveFields resolve found fields
        else do
          let ty ← resolve field.typeName field.node.span.start
          resolveFields resolve (found ++ [(field.name, ty)]) fields).run s := rfl
    have hany : found.any (fun typed => typed.1 == field.name) ↔ field.name ∈ seen := by
      rw [hseen, List.any_eq_true, List.mem_map]
      simp only [beq_iff_eq]
    by_cases hdup : field.name ∈ seen
    · rw [hrun, if_pos (hany.mpr hdup)]
      have hreport := hs.report (.redefinition .field field.name) field.node.span.start
      have hrest := ih hseen hreport
        (fun other hother {_ _} => hfinds other (List.mem_cons_of_mem _ hother))
        (fun other hother {_ _} => haccounts other (List.mem_cons_of_mem _ hother))
      have htold : b.Accounts s
          ((report (.redefinition .field field.name) field.node.span.start).run s).2
          [⟨.redefinition .field field.name, field.node.span.start⟩] [] :=
        .reports rfl Array.toList_push
      refine (htold.trans hrest hreport.closed).balance ?_
      simp only [fieldFaults, firstNamed, laterNamed, if_pos hdup, List.append_nil, List.map_cons,
        List.singleton_append]
      exact List.perm_middle.symm
    · rw [hrun, if_neg (mt hany.mp hdup)]
      obtain ⟨scope', hfield⟩ :=
        hfinds field List.mem_cons_self hs (.refl _) field.node.span.start
      have htold := haccounts field List.mem_cons_self hs (.refl _) field.node.span.start
      set ty := ((resolve field.typeName field.node.span.start).run s).1
      set s' := ((resolve field.typeName field.node.span.start).run s).2
      have hseen' : ∀ n, n ∈ field.name :: seen ↔
          n ∈ (found ++ [(field.name, ty)]).map Prod.fst := by
        intro n
        simp [hseen, or_comm]
      have hrest := ih hseen' hfield.resolving
        (fun other hother {_ _} hs' hscope =>
          hfinds other (List.mem_cons_of_mem _ hother) hs' (hfield.refines.trans hscope))
        (fun other hother {_ _} hs' hscope =>
          haccounts other (List.mem_cons_of_mem _ hother) hs' (hfield.refines.trans hscope))
      refine (htold.trans hrest hfield.resolving.closed).balance (List.Perm.of_eq ?_)
      simp only [fieldFaults, firstNamed, laterNamed, if_neg hdup, List.flatMap_cons,
        List.append_assoc, List.append_nil]

theorem lookInto_record_accounts {span : Span} {fields : List Field} (hb : b.Unresolved)
    (hs : Resolving b start unfinished scope s)
    (hname : b.definition? name = some (.record span fields))
    (hopen : scope.resolved? name = none)
    (hfinds : ∀ field ∈ fields, ∀ {scope' s'}, Resolving b start (name :: unfinished) scope' s' →
      Refines scope scope' → (scope'.resolved? name).isSome → ∀ position,
      Finds b start (name :: unfinished) scope' s' field.typeName
        (b.FieldsGrounded ∧ b.Grounded field.typeName) ((resolve field.typeName position).run s'))
    (haccounts : ∀ field ∈ fields, ∀ {scope' s'}, Resolving b start (name :: unfinished) scope' s' →
      Refines scope scope' → (scope'.resolved? name).isSome → ∀ position,
      b.Accounts s' ((resolve field.typeName position).run s').2
        (b.unknownAt field.typeName position) []) :
    b.Accounts s ((resolveDefinition resolve name (.record span fields) >>= conclude name).run s).2
      [] [] := by
  obtain ⟨declared, hdeclared, hdefinition, hentry⟩ := hs.bound hname
  obtain ⟨binding, hvalue, hbinding⟩ :
      ∃ binding, scope.value? name = some binding ∧ binding.resolved = none := ⟨_, hentry, hopen⟩
  set opened := scope.bind name { binding with resolved := some (.record s.registry.records.size) }
  set s₁ : Checker :=
    { s with types := b.outer.within opened, registry := (s.registry.addRecord name).2 }
  have hs₁ : Resolving b start (name :: unfinished) opened s₁ :=
    openRecord_resolving hs hname hvalue hbinding
  have hscope : Refines scope opened := Refines.settle hvalue (.inl hbinding)
  have hid : opened.resolved? name = some (.record s.registry.records.size) := by
    simp [opened, Scope.resolved?_settle]
  have hnumbered : ∀ {scope'}, Refines opened scope' → (scope'.resolved? name).isSome := by
    intro scope' hscope'
    rw [hscope'.resolved? hid]
    rfl
  -- The number comes first and the faults of the fields are reported later.
  have hopened : b.Accounts s s₁ [] (b.faults (name, declared)) := by
    have hcycle : ¬ b.OnCycle name := by
      intro honCycle
      obtain ⟨target, hnext, -⟩ := honCycle.next?
      simp [next?, hname] at hnext
    have hnone : typeOf? s.types name = none := by rw [hs.typeOf?_eq hname, hopen]
    apply Accounts.settles hb.nodup (Scope.mem_of_value? hdeclared) hcycle hnone
    · intro n
      rw [hs.types]
      exact typeOf?_settle scope binding name _ n
    · rfl
  have hfields : b.Accounts s₁ ((resolveFields resolve [] fields).run s₁).2
      (fieldFaults b [] fields) [] :=
    resolveFields_accounts (by simp) hs₁
      (fun field hfield {_ _} hs' hscope' =>
        hfinds field hfield hs' (hscope.trans hscope') (hnumbered hscope'))
      (fun field hfield {_ _} hs' hscope' =>
        haccounts field hfield hs' (hscope.trans hscope') (hnumbered hscope'))
  obtain ⟨scope', found, -, hfound⟩ : ∃ scope' found,
      ((resolveFields resolve [] fields).run s₁).1 = [] ++ found ∧
      FieldsFound b start (name :: unfinished) opened s₁ [] fields scope' found
        ((resolveFields resolve [] fields).run s₁).2 :=
    resolveFields_found (by simp) hs₁ fun field hfield {_ _} hs' hscope' =>
      hfinds field hfield hs' (hscope.trans hscope') (hnumbered hscope')
  rw [lookInto_record_run hs.types hvalue (rfl : s₁ = _)]
  have hs₂ := hfound.resolving
  set s₂ := ((resolveFields resolve [] fields).run s₁).2
  obtain ⟨settled, hsettled, hresolved⟩ :=
    Option.bind_eq_some_iff.mp (hfound.refines.resolved? hid)
  have hfill : ∀ registry, b.Accounts s₂ { s₂ with registry } [] [] := fun _ => .same rfl rfl
  have hconclude : ∀ registry found,
      b.Accounts { s₂ with registry } ((conclude name found).run { s₂ with registry }).2 [] [] :=
    fun _ => conclude_accounts_settled hs₂.types hsettled hresolved
  have hfaults : fieldFaults b [] fields = b.faults (name, declared) := by
    unfold faults
    rw [hdefinition]
    rfl
  rw [hfaults] at hfields
  have htotal := fun registry found =>
    ((hopened.trans hfields hs₁.closed).trans (hfill registry) hs₂.closed).trans
      (hconclude registry found) hs₂.closed
  apply (htotal _ _).balance
  simp

/-- A walk reports what is wrong with the names that get a type in its course, and whether its own
name is unknown. -/
theorem walk_accounts (hb : b.Unresolved) (hrestart : Restarts b start restart)
    (hrecounts : Recounts b start restart) (hs : Resolving b start unfinished scope s)
    (htrail : Trail b scope visiting name) (hfuel : b.declared.length < fuel + visiting.length) :
    b.Accounts s ((walk restart fuel visiting name position).run s).2
      (b.unknownAt name position) [] := by
  induction fuel generalizing unfinished scope s visiting name position with
  | zero =>
    have hle := htrail.length_le
    omega
  | succ fuel ih =>
    cases hname : b.definition? name with
    | none => exact (walk_undeclared hb hs hname).2
    | some definition =>
      cases hresolved : scope.resolved? name with
      | some ty => exact walk_settled_accounts hs hname hresolved
      | none =>
        obtain ⟨binding, hdeclared, hdefinition, hvalue⟩ := hs.bound hname
        have hentry : s.types.find? name = some ⟨some definition, none, binding.position⟩ := by
          rw [hs.types, Scopes.find?_within, hvalue, Option.some_or, hdefinition, hresolved]
        by_cases hmem : name ∈ visiting
        · rw [walk_again hentry hmem]
          exact resolveLoop_accounts hb hrecounts hs htrail hmem hname hresolved hdeclared
        · rw [walk_on hentry hmem, unknownAt_of_definition? hname]
          have hfuel' : ∀ {m : String}, b.declared.length < fuel + (visiting ++ [m]).length := by
            intro m
            rw [List.length_append, List.length_singleton]
            omega
          cases hnext : b.next? name with
          | some target =>
            have hpush := htrail.next hmem hnext
            exact lookInto_next_accounts hb hs hname hnext hresolved
              (fun _ => walk_finds hb hrestart hs hpush hfuel') (fun _ => ih hs hpush hfuel')
              (fun _ hundeclared => walk_idle hb hs hundeclared)
          | none =>
            cases definition with
            | name span target => simp [next?, hname] at hnext
            | array span element => simp [next?, hname] at hnext
            | record span fields =>
              have hpush : ∀ field ∈ fields, ∀ {scope'}, Refines scope scope' →
                  (scope'.resolved? name).isSome →
                  Trail b scope' (visiting ++ [name]) field.typeName :=
                fun field hfield {_} hscope hsome =>
                  (htrail.refine hscope).field hmem hname hfield hsome
              exact lookInto_record_accounts hb hs hname hresolved
                (fun field hfield {_ _} hs' hscope hsome _ =>
                  walk_finds hb hrestart hs' (hpush field hfield hscope hsome) hfuel')
                (fun field hfield {_ _} hs' hscope hsome _ =>
                  ih hs' (hpush field hfield hscope hsome) hfuel')

theorem typeNamed_accounts (hb : b.Unresolved) (hs : Resolving b start unfinished scope s)
    (name : String) (position : Position) :
    b.Accounts s ((typeNamed name position).run s).2 (b.unknownAt name position) [] := by
  have hlt : b.declared.length < s.types.size + 1 := Nat.lt_succ_of_le (declared_length_le hb hs)
  rw [typeNamed_run]
  exact walk_accounts hb (freshWalk_restarts hlt 1) (freshWalk_recounts hb hlt 1) hs
    (.nil b scope name) hlt

theorem resolveTypes_accounts (hb : b.Unresolved) {names : List (String × Position)}
    (hnames : ∀ name ∈ names, ∃ definition, b.definition? name.1 = some definition)
    (hs : Resolving b start unfinished scope s) :
    b.Accounts s ((resolveTypes names).run s).2 [] [] := by
  induction names generalizing scope s with
  | nil => exact .same rfl rfl
  | cons name rest ih =>
    obtain ⟨name, position⟩ := name
    obtain ⟨definition, hname⟩ := hnames _ List.mem_cons_self
    obtain ⟨scope₁, hfound⟩ := typeNamed_finds hb hs name position
    have hfirst := typeNamed_accounts hb hs name position
    rw [unknownAt_of_definition? hname] at hfirst
    have hrest := ih (fun other hother => hnames other (List.mem_cons_of_mem _ hother))
      hfound.resolving
    have hrun : (resolveTypes ((name, position) :: rest)).run s =
        (resolveTypes rest).run ((typeNamed name position).run s).2 := by
      rw [resolveTypes, run_forM_cons, run_discard, resolveTypes]
    rw [hrun]
    exact hfirst.trans hrest hfound.resolving.closed

theorem declareTypes_enters {outer : Scopes TypeBinding} (houter : AllResolved outer)
    (htypes : s.types = outer.within []) (decs : List Dec) :
    ∃ s₀, (declareTypes decs).run s =
        ((declaredTypes decs).map fun entry => (entry.1, entry.2.position), s₀) ∧
      Resolving ⟨outer, declaredTypes decs⟩ s [] (declaredTypes decs) s₀ ∧
      s₀.diagnostics.toList = s.diagnostics.toList ++
        (laterNamed Prod.fst [] (typeEntries decs)).map redeclared := by
  have hb := declaredTypes_unresolved houter decs
  obtain ⟨diagnostics, events, hrun, hdiagnostics, hevents, hreports⟩ :=
    declareTypes_run decs htypes
  exact ⟨_, hrun, resolving_entered hb hdiagnostics hevents, hreports⟩

theorem TypesSettled.gains {outer : Scopes TypeBinding} {decs : List Dec} {s₀ s₁ : Checker}
    (hsettled : TypesSettled outer decs s s₁ scope)
    (hstart : Resolving ⟨outer, declaredTypes decs⟩ s [] (declaredTypes decs) s₀)
    (hb : TypeBlock.Unresolved ⟨outer, declaredTypes decs⟩)
    (hname : TypeBlock.definition? ⟨outer, declaredTypes decs⟩ name = some definition) :
    Gains s₀ s₁ name := by
  obtain ⟨declared, hdeclared, -, hvalue⟩ := hsettled.resolving.bound hname
  constructor
  · rw [hstart.typeOf?_eq hname, Scope.resolved?, hdeclared]
    exact (hb.open_ hdeclared).1
  · rw [hsettled.resolving.typeOf?_eq hname]
    exact hsettled.settled _ (Scope.mem_of_value? hvalue)

/-- The reports about the type declarations of a block are exactly what is wrong with them, each
once: names declared again, cycles of names and arrays, unknown names and repeated fields. -/
theorem typeBlock_diagnostics (s : Checker) (hs : AllResolved s.types) (decs : List Dec) :
    let b : TypeBlock := ⟨s.types, declaredTypes decs⟩
    let done := ((declareTypes decs >>= resolveTypes).run (enterScopes.run s).2).2
    ∃ new cycles, done.diagnostics.toList = s.diagnostics.toList ++ new ∧
      b.OnePerCycle (fun _ => True) cycles ∧
      new.Perm ((laterNamed Prod.fst [] (typeEntries decs)).map redeclared ++
        cycles.map cycleReport ++ b.definitions.flatMap b.unknownNames ++
        b.definitions.flatMap repeatedFields) := by
  intro b done
  have hentered : (enterScopes.run s).2.types = s.types.within [] := rfl
  have hb : b.Unresolved := declaredTypes_unresolved hs decs
  obtain ⟨s₀, hrun, hresolving, hreports⟩ := declareTypes_enters hs hentered decs
  obtain ⟨scope, hsettled⟩ := declareTypes_resolveTypes hs hentered decs
  have hnames : ∀ name ∈ (declaredTypes decs).map fun entry => (entry.1, entry.2.position),
      ∃ definition, b.definition? name.1 = some definition := by
    intro name hname
    obtain ⟨entry, hentry, rfl⟩ := List.mem_map.mp hname
    exact hb.definition?_of_mem hentry
  have haccounts : b.Accounts s₀ done [] [] := by
    change b.Accounts s₀ ((declareTypes decs >>= resolveTypes).run (enterScopes.run s).2).2 [] []
    rw [run_bind, hrun]
    exact resolveTypes_accounts hb hnames hresolving
  obtain ⟨new, cycles, hnew, hperm, hcycles⟩ := haccounts.told
  have hgains : ∀ {name definition}, b.definition? name = some definition → Gains s₀ done name :=
    hsettled.gains hresolving hb
  -- All names have got a type in the end, so nothing is left to report.
  have hall : b.gained s₀ done = b.declared := by
    refine List.filter_eq_self.mpr fun entry hentry => ?_
    obtain ⟨definition, hname⟩ := hb.definition?_of_mem hentry
    obtain ⟨hopen, hsome⟩ := hgains hname
    simp [hopen, hsome]
  have hfaults := b.flatMap_faults_perm
  refine ⟨(laterNamed Prod.fst [] (typeEntries decs)).map redeclared ++ new, cycles, ?_, ?_, ?_⟩
  · rw [hnew, hreports, List.append_assoc]
    rfl
  · apply hcycles.congr
    intro name hcycle
    obtain ⟨definition, hname⟩ := hcycle.declared
    exact iff_of_true (hgains hname) trivial
  · rw [hall] at hperm
    refine List.perm_iff_count.mpr fun d => ?_
    have hcount := hperm.count_eq d
    have hfaultsCount := hfaults.count_eq d
    simp only [List.count_append, List.count_nil] at hcount hfaultsCount ⊢
    omega

theorem typeBlock_diagnostics_wheel :
    let decs : List Dec :=
      [.type default "wheel" (.array default "spoke"),
        .type default "spoke" (.name default "wheel"),
        .type default "list" (.record default
          [⟨default, "rest", "list"⟩, ⟨default, "rest", "int"⟩, ⟨default, "head", "nowhere"⟩]),
        .type default "spoke" (.name default "list")]
    AllResolved Checker.initial.types ∧ ∃ new cycles,
      ((declareTypes decs >>= resolveTypes).run (enterScopes.run .initial).2).2.diagnostics.toList =
        Checker.initial.diagnostics.toList ++ new ∧
      TypeBlock.OnePerCycle ⟨Checker.initial.types, declaredTypes decs⟩ (fun _ => True) cycles ∧
      new.Perm ([⟨.redefinition .type "spoke", default⟩] ++ cycles.map cycleReport ++
        [⟨.undefinedName .type "nowhere", default⟩] ++ [⟨.redefinition .field "rest", default⟩]) :=
  ⟨allResolved_initial, typeBlock_diagnostics .initial allResolved_initial _⟩

end CheckM

end TigerLang
