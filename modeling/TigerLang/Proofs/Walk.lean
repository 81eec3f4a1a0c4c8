import Mathlib.Data.List.Nodup
import Mathlib.Data.List.TakeWhile
import TigerLang.Proofs.Resolution

/-! Walks from name to name. The names on the way form a trail, each referring to the next. A walk
that meets its own trail either begins anew, and then runs straight to a record that is numbered
already, or has found a loop. -/

namespace TigerLang

namespace TypeBlock
variable (b : TypeBlock)

def Refers (m n : String) : Prop :=
  b.next? m = some n ∨
    ∃ span fields, b.definition? m = some (.record span fields) ∧
      ∃ field ∈ fields, field.typeName = n

def IsRecord (name : String) : Prop :=
  ∃ span fields, b.definition? name = some (.record span fields)

variable {b}

theorem Refers.next? {m n : String} (h : b.Refers m n) (hm : ¬ b.IsRecord m) :
    b.next? m = some n := by
  rcases h with hnext | ⟨span, fields, hrecord, -⟩
  · exact hnext
  · exact absurd ⟨span, fields, hrecord⟩ hm

/-- As far as the first record, a trail goes straight from name to name. -/
theorem exists_straight {name : String} {trail : List String}
    (hchain : List.IsChain b.Refers (name :: trail)) (hname : ¬ b.IsRecord name)
    (hrecord : ∃ m ∈ trail, b.IsRecord m) :
    ∃ path, path <+: trail ∧ List.IsChain (fun m n => b.next? m = some n) (name :: path) ∧
      ∃ m ∈ path, b.IsRecord m := by
  induction trail generalizing name with
  | nil => simp at hrecord
  | cons m rest ih =>
    rw [List.isChain_cons_cons] at hchain
    have hnext := hchain.1.next? hname
    by_cases hm : b.IsRecord m
    · refine ⟨[m], by simp, ?_, m, List.mem_singleton_self m, hm⟩
      rw [List.isChain_cons_cons]
      exact ⟨hnext, .singleton m⟩
    · obtain ⟨n, hn, hnrecord⟩ := hrecord
      have hrest : n ∈ rest := by
        rcases List.mem_cons.mp hn with rfl | hrest
        · exact absurd hnrecord hm
        · exact hrest
      obtain ⟨path, hpath, hstraight, k, hk, hkrecord⟩ := ih hchain.2 hm ⟨n, hrest, hnrecord⟩
      refine ⟨m :: path, List.cons_prefix_cons.mpr ⟨rfl, hpath⟩, ?_, k,
        List.mem_cons_of_mem _ hk, hkrecord⟩
      rw [List.isChain_cons_cons]
      exact ⟨hnext, hstraight⟩

/-- In a trail without records that comes back to a name of its own, each name goes on to another of
them. -/
theorem exists_next_of_closed {trail : List String} {last : String}
    (hchain : List.IsChain b.Refers (trail ++ [last])) (hrecord : ∀ m ∈ trail, ¬ b.IsRecord m) :
    ∀ m ∈ trail, ∃ n ∈ trail.tail ++ [last], b.next? m = some n := by
  induction trail with
  | nil => simp
  | cons m rest ih =>
    have hm := hrecord m List.mem_cons_self
    have hrest := fun n hn => hrecord n (List.mem_cons_of_mem m hn)
    intro n hn
    cases rest with
    | nil =>
      rw [List.mem_singleton] at hn
      subst hn
      simp only [List.cons_append, List.nil_append, List.isChain_cons_cons] at hchain
      exact ⟨last, by simp, hchain.1.next? hm⟩
    | cons k rest =>
      simp only [List.cons_append, List.isChain_cons_cons] at hchain ih
      rcases List.mem_cons.mp hn with rfl | hn
      · exact ⟨k, by simp, hchain.1.next? hm⟩
      · obtain ⟨target, htarget, hnext⟩ := ih hchain.2 hrest n hn
        exact ⟨target, by simpa using Or.inr htarget, hnext⟩

theorem leads_of_chain {trail : List String} {last : String}
    (hchain : List.IsChain b.Refers (trail ++ [last])) (hrecord : ∀ m ∈ trail, ¬ b.IsRecord m) :
    ∀ m ∈ trail, b.Leads m last := by
  induction trail with
  | nil => simp
  | cons m rest ih =>
    have hm := hrecord m List.mem_cons_self
    have hrest := fun n hn => hrecord n (List.mem_cons_of_mem m hn)
    cases rest with
    | nil =>
      simp only [List.cons_append, List.nil_append, List.isChain_cons_cons] at hchain
      intro n hn
      rw [List.mem_singleton.mp hn]
      exact .single (hchain.1.next? hm)
    | cons k rest =>
      simp only [List.cons_append, List.isChain_cons_cons] at hchain ih
      have hleads := ih hchain.2 hrest
      intro n hn
      rcases List.mem_cons.mp hn with rfl | hn
      · exact .head (hchain.1.next? hm) (hleads k List.mem_cons_self)
      · exact hleads n hn

theorem not_grounded_of_closed {loop : List String}
    (hloop : ∀ m ∈ loop, ∃ n ∈ loop, b.next? m = some n) {name : String} (hname : name ∈ loop) :
    ¬ b.Grounded name := by
  intro hground
  induction hground with
  | @outer name _ _ hnone _ _ _ =>
    obtain ⟨n, -, hnext⟩ := hloop name hname
    obtain ⟨definition, hdefinition, -⟩ := declared_of_next? hnext
    simp [definition?, hnone] at hdefinition
  | @record name _ _ hrecord =>
    obtain ⟨n, -, hnext⟩ := hloop name hname
    simp [next?, hrecord] at hnext
  | @step name target hnext _ ih =>
    obtain ⟨n, hn, hnext'⟩ := hloop name hname
    rw [hnext] at hnext'
    cases hnext'
    exact ih hn

end TypeBlock

/-- The names being looked into, the latest last, on the way to a further name. Records among them
have their number already. -/
structure Trail (b : TypeBlock) (scope : Scope TypeBinding) (visiting : List String)
    (name : String) : Prop where
  nodup : visiting.Nodup
  declared : ∀ m ∈ visiting, ∃ definition, b.definition? m = some definition
  chain : List.IsChain b.Refers (visiting ++ [name])
  records : ∀ m ∈ visiting, b.IsRecord m → (scope.resolved? m).isSome

namespace Trail
variable {b : TypeBlock} {scope scope' : Scope TypeBinding} {visiting : List String}
  {name : String}

theorem nil (b : TypeBlock) (scope : Scope TypeBinding) (name : String) : Trail b scope [] name :=
  ⟨List.nodup_nil, by simp, .singleton name, by simp⟩

theorem refine (h : Trail b scope visiting name) (hscope : Refines scope scope') :
    Trail b scope' visiting name := by
  refine ⟨h.nodup, h.declared, h.chain, fun m hm hrecord => ?_⟩
  obtain ⟨ty, hty⟩ := Option.isSome_iff_exists.mp (h.records m hm hrecord)
  rw [hscope.resolved? hty]
  rfl

theorem push (h : Trail b scope visiting name) (hmem : name ∉ visiting) {target : String}
    {definition : TypeExp} (hname : b.definition? name = some definition)
    (hrefers : b.Refers name target)
    (hrecord : b.IsRecord name → (scope.resolved? name).isSome) :
    Trail b scope (visiting ++ [name]) target := by
  constructor
  case nodup =>
    refine List.nodup_append.mpr ⟨h.nodup, List.nodup_singleton name, fun m hm n hn heq => ?_⟩
    rw [heq, List.mem_singleton.mp hn] at hm
    exact hmem hm
  case declared =>
    intro m hm
    rcases List.mem_append.mp hm with hm | hm
    · exact h.declared m hm
    · exact ⟨definition, List.mem_singleton.mp hm ▸ hname⟩
  case chain =>
    rw [List.append_assoc, List.singleton_append, List.isChain_split]
    refine ⟨h.chain, ?_⟩
    rw [List.isChain_cons_cons]
    exact ⟨hrefers, .singleton target⟩
  case records =>
    intro m hm hm'
    rcases List.mem_append.mp hm with hm | hm
    · exact h.records m hm hm'
    · obtain rfl := List.mem_singleton.mp hm
      exact hrecord hm'

theorem next (h : Trail b scope visiting name) (hmem : name ∉ visiting) {target : String}
    (hnext : b.next? name = some target) : Trail b scope (visiting ++ [name]) target := by
  obtain ⟨definition, hname, -⟩ := TypeBlock.declared_of_next? hnext
  refine h.push hmem hname (.inl hnext) ?_
  rintro ⟨_, _, hrecord⟩
  simp [TypeBlock.next?, hrecord] at hnext

theorem field (h : Trail b scope visiting name) (hmem : name ∉ visiting) {span : Span}
    {fields : List Field} (hname : b.definition? name = some (.record span fields)) {field : Field}
    (hfield : field ∈ fields) (hsome : (scope.resolved? name).isSome) :
    Trail b scope (visiting ++ [name]) field.typeName :=
  h.push hmem hname (.inr ⟨span, fields, hname, field, hfield, rfl⟩) fun _ => hsome

theorem length_le (h : Trail b scope visiting name) :
    visiting.length ≤ b.declared.length := by
  have hsub : visiting ⊆ b.declared.map Prod.fst := by
    intro m hm
    obtain ⟨definition, hdefinition⟩ := h.declared m hm
    exact TypeBlock.mem_names_of_definition? hdefinition
  simpa using h.nodup.length_le_of_subset hsub

theorem loop (h : Trail b scope visiting name) (hmem : name ∈ visiting) :
    ∃ rest, visiting.dropWhile (· != name) = name :: rest ∧ (name :: rest).Nodup ∧
      (∀ m ∈ name :: rest, m ∈ visiting) ∧ List.IsChain b.Refers (name :: rest ++ [name]) := by
  have hsplit : visiting.takeWhile (· != name) ++ visiting.dropWhile (· != name) = visiting :=
    List.takeWhile_append_dropWhile
  cases hdrop : visiting.dropWhile (· != name) with
  | nil =>
    rw [hdrop, List.append_nil] at hsplit
    rw [← hsplit] at hmem
    simpa using List.mem_takeWhile_imp hmem
  | cons m rest =>
    obtain rfl : m = name := by
      have hhead := List.head?_dropWhile_not (· != name) visiting
      rw [hdrop] at hhead
      simpa using hhead
    rw [hdrop] at hsplit
    have hnodup := h.nodup
    have hchain := h.chain
    rw [← hsplit] at hnodup hchain
    rw [List.append_assoc] at hchain
    refine ⟨rest, rfl, (List.nodup_append.mp hnodup).2.1, fun k hk => ?_,
      (List.isChain_append.mp hchain).2.1⟩
    rw [← hsplit]
    exact List.mem_append_right _ hk

theorem not_isRecord (h : Trail b scope visiting name) (hmem : name ∈ visiting)
    (hopen : scope.resolved? name = none) : ¬ b.IsRecord name := by
  intro hrecord
  simpa [hopen] using h.records name hmem hrecord

theorem straight (h : Trail b scope visiting name) (hmem : name ∈ visiting)
    (hopen : scope.resolved? name = none)
    (hrecord : ∃ m ∈ (visiting.dropWhile (· != name)).tail, b.IsRecord m) :
    ∃ path, List.IsChain (fun m n => b.next? m = some n) (name :: path) ∧
      (∃ m ∈ path, ∃ ty, scope.resolved? m = some ty) ∧ (name :: path).Nodup := by
  obtain ⟨rest, hdrop, hnodup, hsub, hchain⟩ := h.loop hmem
  rw [hdrop, List.tail_cons] at hrecord
  obtain ⟨path, hpath, hstraight, k, hk, hkrecord⟩ := TypeBlock.exists_straight
    (List.isChain_append.mp hchain).1 (h.not_isRecord hmem hopen) hrecord
  have hkvisiting := hsub k (List.mem_cons_of_mem _ (hpath.subset hk))
  have hksome := Option.isSome_iff_exists.mp (h.records k hkvisiting hkrecord)
  exact ⟨path, hstraight, ⟨k, hk, hksome⟩, hnodup.sublist (hpath.sublist.cons_cons name)⟩

end Trail

/-- A straight path from a name to one that has a type, past none of those in `visiting`. -/
structure ClearPath (b : TypeBlock) (scope : Scope TypeBinding) (visiting : List String)
    (name : String) (path : List String) : Prop where
  chain : List.IsChain (fun m n => b.next? m = some n) (name :: path)
  ends : ∃ m ∈ name :: path, ∃ ty, scope.resolved? m = some ty
  nodup : (name :: path).Nodup
  away : ∀ m ∈ name :: path, m ∉ visiting

theorem ClearPath.tail {b : TypeBlock} {scope : Scope TypeBinding} {visiting path : List String}
    {name target : String} (h : ClearPath b scope visiting name (target :: path))
    (hopen : scope.resolved? name = none) :
    ClearPath b scope (visiting ++ [name]) target path := by
  obtain ⟨hchain, ⟨m, hm, ty, hty⟩, hnodup, haway⟩ := h
  rw [List.isChain_cons_cons] at hchain
  rw [List.nodup_cons] at hnodup
  refine ⟨hchain.2, ?_, hnodup.2, fun k hk hmem => ?_⟩
  · rcases List.mem_cons.mp hm with rfl | hm
    · simp [hopen] at hty
    · exact ⟨m, hm, ty, hty⟩
  · rcases List.mem_append.mp hmem with hmem | hmem
    · exact haway k (List.mem_cons_of_mem _ hk) hmem
    · exact hnodup.1 (List.mem_singleton.mp hmem ▸ hk)

theorem eq_of_between {α : Type} {old between new : Array α} (h : old.toList <+: between.toList)
    (h' : between.toList <+: new.toList) (hsame : new = old) : between = old := by
  rw [hsame] at h'
  exact Array.toList_inj.mp (h'.eq_of_length (Nat.le_antisymm h'.length_le h.length_le))

namespace CheckM
variable {b : TypeBlock} {start s : Checker} {unfinished visiting : List String}
  {scope : Scope TypeBinding} {name : String} {restart : String → Position → CheckM Ty}
  {position : Position}

/-- A straight path is walked to the end without any loop. -/
theorem walk_straight {path : List String} {fuel : Nat}
    (hs : Resolving b start unfinished scope s) (hpath : ClearPath b scope visiting name path)
    (hfuel : path.length < fuel) :
    Finds b start unfinished scope s name True
      ((walk restart fuel visiting name position).run s) := by
  induction path generalizing name visiting fuel position with
  | nil =>
    obtain ⟨fuel, rfl⟩ := Nat.exists_eq_add_one_of_ne_zero (Nat.ne_zero_of_lt hfuel)
    obtain ⟨m, hm, ty, hty⟩ := hpath.ends
    obtain rfl := List.mem_singleton.mp hm
    obtain ⟨binding, hvalue, hresolved⟩ := Option.bind_eq_some_iff.mp hty
    have hfind : s.types.find? m = some binding := by
      rw [hs.types, Scopes.find?_within, hvalue, Option.some_or]
    rw [walk_settled hfind hresolved]
    exact ⟨scope, hs.found hfind hresolved True⟩
  | cons target rest ih =>
    obtain ⟨fuel, rfl⟩ := Nat.exists_eq_add_one_of_ne_zero (Nat.ne_zero_of_lt hfuel)
    have hnext : b.next? name = some target := (List.isChain_cons_cons.mp hpath.chain).1
    obtain ⟨definition, hname, -⟩ := TypeBlock.declared_of_next? hnext
    obtain ⟨declared, hentry⟩ := hs.entry hname
    cases hresolved : scope.resolved? name with
    | some ty =>
      rw [walk_settled hentry hresolved]
      exact ⟨scope, hs.found hentry hresolved True⟩
    | none =>
      rw [hresolved] at hentry
      rw [walk_on hentry (hpath.away name List.mem_cons_self)]
      exact lookInto_next hname hnext fun position => ih (hpath.tail hresolved) (by simpa using hfuel)

theorem settleAll_run {loop : List String} (htypes : s.types = b.outer.within scope)
    (hdeclared : ∀ m ∈ loop, ∃ binding, scope.value? m = some binding)
    (hopen : ∀ m ∈ loop, scope.resolved? m = none ∨ scope.resolved? m = some .error) :
    ∃ scope', (loop.forM fun m => settle m .error).run s =
        ((), { s with types := b.outer.within scope' }) ∧ Refines scope scope' ∧
      ∀ m, scope'.resolved? m = if m ∈ loop then some .error else scope.resolved? m := by
  induction loop generalizing scope s with
  | nil => exact ⟨scope, by rw [← htypes]; rfl, .refl _, by simp⟩
  | cons m rest ih =>
    obtain ⟨binding, hvalue⟩ := hdeclared m List.mem_cons_self
    have hm : binding.resolved = none ∨ binding.resolved = some .error := by
      simpa [Scope.resolved?, hvalue] using hopen m List.mem_cons_self
    have hscope := Refines.settle hvalue hm
    have hrest : ∀ k ∈ rest, ∃ binding',
        (scope.bind m { binding with resolved := some .error }).value? k = some binding' := by
      intro k hk
      obtain ⟨binding', hvalue'⟩ := hdeclared k (List.mem_cons_of_mem _ hk)
      obtain ⟨r, hr, -⟩ := hscope.kept hvalue'
      exact ⟨_, hr⟩
    have hopen' : ∀ k ∈ rest,
        (scope.bind m { binding with resolved := some .error }).resolved? k = none ∨
          (scope.bind m { binding with resolved := some .error }).resolved? k = some .error := by
      intro k hk
      rw [Scope.resolved?_settle]
      split
      · exact .inr rfl
      · exact hopen k (List.mem_cons_of_mem _ hk)
    obtain ⟨scope', hrun, hscope', hresolved⟩ := ih
      (s := { s with
        types := b.outer.within (scope.bind m { binding with resolved := some .error }) })
      rfl hrest hopen'
    refine ⟨scope', ?_, hscope.trans hscope', fun k => ?_⟩
    · rw [run_forM_cons, settle_run htypes hvalue]
      exact hrun
    · rw [hresolved, Scope.resolved?_settle]
      by_cases hk : k = m <;> simp [hk]

theorem declaresRecord_iff (hs : Resolving b start unfinished scope s)
    {definition : TypeExp} (hname : b.definition? name = some definition) :
    declaresRecord s.types name = true ↔ b.IsRecord name := by
  obtain ⟨declared, hentry⟩ := hs.entry hname
  unfold declaresRecord TypeBlock.IsRecord
  rw [hentry, hname]
  cases definition <;> simp [TypeExp.isRecord]

/-- How to begin anew at a name: there is a straight path to a name that has a type. -/
def Restarts (b : TypeBlock) (start : Checker) (restart : String → Position → CheckM Ty) : Prop :=
  ∀ {unfinished scope s name path}, Resolving b start unfinished scope s →
    List.IsChain (fun m n => b.next? m = some n) (name :: path) →
    (∃ m ∈ path, ∃ ty, scope.resolved? m = some ty) → (name :: path).Nodup →
    ∀ position, Finds b start unfinished scope s name True ((restart name position).run s)

theorem straight_of_declaresRecord (hs : Resolving b start unfinished scope s)
    (htrail : Trail b scope visiting name) (hmem : name ∈ visiting)
    (hopen : scope.resolved? name = none)
    (hany : (visiting.dropWhile (· != name)).tail.any (declaresRecord s.types) = true) :
    ∃ path, List.IsChain (fun m n => b.next? m = some n) (name :: path) ∧
      (∃ m ∈ path, ∃ ty, scope.resolved? m = some ty) ∧ (name :: path).Nodup := by
  obtain ⟨m, hm, hdeclares⟩ := List.any_eq_true.mp hany
  have hvisited : m ∈ visiting := (List.dropWhile_sublist _).subset (List.mem_of_mem_tail hm)
  obtain ⟨definition, hdefinition⟩ := htrail.declared m hvisited
  exact htrail.straight hmem hopen ⟨m, hm, (declaresRecord_iff hs hdefinition).mp hdeclares⟩

theorem closed_of_not_declaresRecord (hs : Resolving b start unfinished scope s)
    (htrail : Trail b scope visiting name) (hmem : name ∈ visiting)
    (hopen : scope.resolved? name = none) {loop : List String}
    (hloop : visiting.dropWhile (· != name) = loop)
    (hany : ¬ loop.tail.any (declaresRecord s.types) = true) :
    name ∈ loop ∧ (∀ m ∈ loop, ∃ n ∈ loop, b.next? m = some n) ∧ (∀ m ∈ loop, b.Leads m name) ∧
      (∀ m ∈ loop, ∃ definition, b.definition? m = some definition) ∧
      ∀ m ∈ loop, scope.resolved? m = none ∨ scope.resolved? m = some .error := by
  obtain ⟨rest, hdrop, -, hsub, hchain⟩ := htrail.loop hmem
  obtain rfl : loop = name :: rest := hloop.symm.trans hdrop
  have hdeclared : ∀ m ∈ name :: rest, ∃ definition, b.definition? m = some definition :=
    fun m hm => htrail.declared m (hsub m hm)
  have hrecord : ∀ m ∈ name :: rest, ¬ b.IsRecord m := by
    intro m hm hmrecord
    rcases List.mem_cons.mp hm with rfl | hm
    · exact htrail.not_isRecord hmem hopen hmrecord
    · obtain ⟨definition, hdefinition⟩ := hdeclared m (List.mem_cons_of_mem _ hm)
      exact hany (List.any_eq_true.mpr ⟨m, hm, (declaresRecord_iff hs hdefinition).mpr hmrecord⟩)
  have hnext : ∀ m ∈ name :: rest, ∃ n ∈ name :: rest, b.next? m = some n := by
    intro m hm
    obtain ⟨n, hn, hnext⟩ := TypeBlock.exists_next_of_closed hchain hrecord m hm
    refine ⟨n, ?_, hnext⟩
    simpa [or_comm] using hn
  refine ⟨List.mem_cons_self, hnext, TypeBlock.leads_of_chain hchain hrecord, hdeclared, ?_⟩
  intro m hm
  cases hresolved : scope.resolved? m with
  | none => exact .inl rfl
  | some ty =>
    by_cases hty : ty = .error
    · exact .inr (congrArg some hty)
    · exact absurd (hs.sound.grounded hresolved hty) (TypeBlock.not_grounded_of_closed hnext hm)

/-- What becomes of a name that is met again. Either there is a straight path from it to a record,
which has its number, or it is part of a loop, which is reported. -/
theorem resolveLoop_cases (hs : Resolving b start unfinished scope s)
    (htrail : Trail b scope visiting name) (hmem : name ∈ visiting)
    (hopen : scope.resolved? name = none) (declared : Position) :
    (∃ path, List.IsChain (fun m n => b.next? m = some n) (name :: path) ∧
      (∃ m ∈ path, ∃ ty, scope.resolved? m = some ty) ∧ (name :: path).Nodup ∧
      (resolveLoop restart name declared position (visiting.dropWhile (· != name))).run s =
        (restart name position).run s) ∨
    ∃ (loop : List String) (scope' : Scope TypeBinding), name ∈ loop ∧
      (∀ m ∈ loop, ∃ n ∈ loop, b.next? m = some n) ∧ (∀ m ∈ loop, b.Leads m name) ∧
      Refines scope scope' ∧
      (∀ m, scope'.resolved? m = if m ∈ loop then some .error else scope.resolved? m) ∧
      (resolveLoop restart name declared position (visiting.dropWhile (· != name))).run s =
        (.error, { ((report (.cyclicType name) declared).run s).2 with
          types := b.outer.within scope' }) := by
  set loop := visiting.dropWhile (· != name) with hloop
  have hrun : (resolveLoop restart name declared position loop).run s =
      (if loop.tail.any (declaresRecord s.types) then restart name position
        else do
          report (.cyclicType name) declared
          loop.forM fun m => settle m .error
          return .error).run s := rfl
  rw [hrun]
  by_cases hany : loop.tail.any (declaresRecord s.types)
  · left
    rw [if_pos hany]
    obtain ⟨path, hstraight, hend, hnodup⟩ := straight_of_declaresRecord hs htrail hmem hopen hany
    exact ⟨path, hstraight, hend, hnodup, rfl⟩
  · right
    rw [if_neg hany]
    obtain ⟨hself, hnext, hleads, hdeclared, hlost⟩ :=
      closed_of_not_declaresRecord hs htrail hmem hopen hloop.symm hany
    have hbound : ∀ m ∈ loop, ∃ binding, scope.value? m = some binding := by
      intro m hm
      obtain ⟨definition, hdefinition⟩ := hdeclared m hm
      obtain ⟨declared, -, -, hvalue⟩ := hs.bound hdefinition
      exact ⟨_, hvalue⟩
    have hreport := hs.report (.cyclicType name) declared
    obtain ⟨scope', hsettle, hscope, hresolved⟩ := settleAll_run hreport.types hbound hlost
    have hend : (do
        report (.cyclicType name) declared
        loop.forM fun m => settle m .error
        return .error : CheckM Ty).run s = (Ty.error, ((loop.forM fun m =>
          settle m .error).run ((report (.cyclicType name) declared).run s).2).2) := rfl
    rw [hend, hsettle]
    exact ⟨loop, scope', hself, hnext, hleads, hscope, hresolved, rfl⟩

theorem resolveLoop_finds (hrestart : Restarts b start restart)
    (hs : Resolving b start unfinished scope s) (htrail : Trail b scope visiting name)
    (hmem : name ∈ visiting) (hopen : scope.resolved? name = none) {declared : Position} :
    Finds b start unfinished scope s name (b.FieldsGrounded ∧ b.Grounded name)
      ((resolveLoop restart name declared position (visiting.dropWhile (· != name))).run s) := by
  rcases resolveLoop_cases hs htrail hmem hopen declared with
    ⟨path, hstraight, hend, hnodup, hrun⟩ | ⟨loop, scope', hself, hloop, -, hscope, hresolved, hrun⟩
  · obtain ⟨scope', hfound⟩ := hrestart hs hstraight hend hnodup position
    rw [hrun]
    exact ⟨scope', hfound.imp fun _ => trivial⟩
  · have hreport := hs.report (.cyclicType name) declared
    have hne := diagnostics_ne_of_report hs.diagnostics (.cyclicType name) declared
    have hsound := hreport.sound.settleLoop hs.refines hscope hloop hresolved
    have hfound := hreport.change hscope hsound fun _ hsame => absurd hsame hne
    rw [hrun]
    refine ⟨scope', hfound, hscope, ?_, fun _ hsame => absurd hsame hne, ?_, fun hsilent => ?_⟩
    · obtain ⟨definition, hdefinition⟩ := htrail.declared name hmem
      rw [hfound.refines.stands_iff hdefinition, hresolved, if_pos hself]
    · have hpush : s.diagnostics.toList <+:
          (s.diagnostics.push ⟨.cyclicType name, declared⟩).toList := by simp
      exact hpush
    · exact absurd hsilent.2 (TypeBlock.not_grounded_of_closed hloop hself)

structure FieldsFound (b : TypeBlock) (start : Checker) (unfinished : List String)
    (scope : Scope TypeBinding) (s : Checker) (seen : List String) (fields : List Field)
    (scope' : Scope TypeBinding) (found : List (String × Ty)) (s' : Checker) : Prop where
  resolving : Resolving b start unfinished scope' s'
  refines : Refines scope scope'
  stand : FieldsStand (b.outer.within scope') (firstNamed Field.name seen fields) found
  certain : b.Clean → s'.diagnostics = start.diagnostics →
    (fields.map Field.name).Nodup ∧ (∀ field ∈ fields, field.name ∉ seen) ∧
      ∀ field ∈ fields, ∃ ty, Stands (b.outer.within scope') field.typeName ty ∧ ty ≠ .error
  longer : s.diagnostics.toList <+: s'.diagnostics.toList
  quiet : b.FieldsGrounded → (fields.map Field.name).Nodup → (∀ field ∈ fields, field.name ∉ seen) →
    (∀ field ∈ fields, b.Grounded field.typeName) → s'.diagnostics = s.diagnostics

namespace FieldsFound
variable {scope' scope'' : Scope TypeBinding} {s' s'' : Checker} {seen : List String}
  {field : Field} {fields : List Field} {found : List (String × Ty)}

theorem nil (hs : Resolving b start unfinished scope s) (seen : List String) :
    FieldsFound b start unfinished scope s seen [] scope [] s := by
  refine ⟨hs, .refl _, .nil, ?_, List.prefix_rfl, ?_⟩
  · intro _ _
    simp
  · intro _ _ _ _
    rfl

theorem repeated (hs : Resolving b start unfinished scope s) (hdup : field.name ∈ seen)
    (h : FieldsFound b start unfinished scope
      ((report (.redefinition .field field.name) field.node.span.start).run s).2 seen fields
      scope' found s') :
    FieldsFound b start unfinished scope s seen (field :: fields) scope' found s' := by
  have hreport := hs.report (.redefinition .field field.name) field.node.span.start
  refine ⟨h.resolving, h.refines, ?_, fun _ hsame => ?_, ?_,
    fun _ _ hfresh => absurd hdup (hfresh field List.mem_cons_self)⟩
  · rw [firstNamed, if_pos hdup]
    exact h.stand
  · have hbetween := eq_of_between hreport.diagnostics h.longer hsame
    exact absurd hbetween (diagnostics_ne_of_report hs.diagnostics _ _)
  · exact (diagnostics_report _ _ s).trans h.longer

theorem cons {ty : Ty} (hnew : field.name ∉ seen)
    (hfield : Found b start unfinished scope s field.typeName
      (b.FieldsGrounded ∧ b.Grounded field.typeName) scope' ty s')
    (h : FieldsFound b start unfinished scope' s' (field.name :: seen) fields scope'' found s'') :
    FieldsFound b start unfinished scope s seen (field :: fields) scope''
      ((field.name, ty) :: found) s'' := by
  refine ⟨h.resolving, hfield.refines.trans h.refines, ?_, fun hclean hsame => ?_,
    hfield.longer.trans h.longer, fun hgrounded hnodup hfresh htypes => ?_⟩
  · rw [firstNamed, if_neg hnew]
    exact .cons ⟨rfl, h.refines.stands hfield.stands⟩ h.stand
  · obtain ⟨hnodup, hfresh, htypes⟩ := h.certain hclean hsame
    have hbetween := eq_of_between hfield.resolving.diagnostics h.longer hsame
    refine ⟨?_, ?_, ?_⟩
    · rw [List.map_cons, List.nodup_cons]
      refine ⟨fun hmem => ?_, hnodup⟩
      obtain ⟨other, hother, heq⟩ := List.mem_map.mp hmem
      exact hfresh other hother (heq ▸ List.mem_cons_self)
    · intro other hother
      rcases List.mem_cons.mp hother with rfl | hother
      · exact hnew
      · exact fun hmem => hfresh other hother (List.mem_cons_of_mem _ hmem)
    · intro other hother
      rcases List.mem_cons.mp hother with rfl | hother
      · exact ⟨ty, h.refines.stands hfield.stands, hfield.certain hclean hbetween⟩
      · exact htypes other hother
  · rw [List.map_cons, List.nodup_cons] at hnodup
    have hfresh' : ∀ other ∈ fields, other.name ∉ field.name :: seen := by
      intro other hother hmem
      rcases List.mem_cons.mp hmem with heq | hmem
      · exact hnodup.1 (List.mem_map.mpr ⟨other, hother, heq⟩)
      · exact hfresh other (List.mem_cons_of_mem _ hother) hmem
    have hfirst := hfield.quiet ⟨hgrounded, htypes field List.mem_cons_self⟩
    have hrest := h.quiet hgrounded hnodup.2 hfresh' fun other hother =>
      htypes other (List.mem_cons_of_mem _ hother)
    exact hrest.trans hfirst

end FieldsFound

theorem resolveFields_found {resolve : String → Position → CheckM Ty} {fields : List Field}
    {found : List (String × Ty)} {seen : List String}
    (hseen : ∀ n, n ∈ seen ↔ n ∈ found.map Prod.fst)
    (hs : Resolving b start unfinished scope s)
    (hresolve : ∀ field ∈ fields, ∀ {scope' s'}, Resolving b start unfinished scope' s' →
      Refines scope scope' → ∀ position, Finds b start unfinished scope' s' field.typeName
        (b.FieldsGrounded ∧ b.Grounded field.typeName)
        ((resolve field.typeName position).run s')) :
    ∃ scope' new, ((resolveFields resolve found fields).run s).1 = found ++ new ∧
      FieldsFound b start unfinished scope s seen fields scope' new
        ((resolveFields resolve found fields).run s).2 := by
  induction fields generalizing found seen scope s with
  | nil => exact ⟨scope, [], (List.append_nil found).symm, .nil hs seen⟩
  | cons field fields ih =>
    have hrun : (resolveFields resolve found (field :: fields)).run s =
        (if found.any (fun typed => typed.1 == field.name) then do
          report (.redefinition .field field.name) field.node.span.start
          resolveFields resolve found fields
        else do
          let ty ← resolve field.typeName field.node.span.start
          resolveFields resolve (found ++ [(field.name, ty)]) fields).run s := rfl
    have hany : found.any (fun typed => typed.1 == field.name) ↔ field.name ∈ seen := by
      rw [hseen, List.any_eq_true, List.mem_map]
      simp only [beq_iff_eq]
    by_cases hdup : field.name ∈ seen
    · have hreport := hs.report (.redefinition .field field.name) field.node.span.start
      obtain ⟨scope', new, hnew, h⟩ := ih hseen hreport fun other hother {_ _} hs' hscope =>
        hresolve other (List.mem_cons_of_mem _ hother) hs' hscope
      rw [hrun, if_pos (hany.mpr hdup)]
      exact ⟨scope', new, hnew, h.repeated hs hdup⟩
    · obtain ⟨scope', hfield⟩ :=
        hresolve field List.mem_cons_self hs (.refl _) field.node.span.start
      set ty := ((resolve field.typeName field.node.span.start).run s).1
      set s' := ((resolve field.typeName field.node.span.start).run s).2
      have hseen' : ∀ n, n ∈ field.name :: seen ↔ n ∈ (found ++ [(field.name, ty)]).map Prod.fst := by
        intro n
        simp [hseen, or_comm]
      obtain ⟨scope'', new, hnew, h⟩ := ih hseen' hfield.resolving fun other hother {_ _} hs' hscope =>
        hresolve other (List.mem_cons_of_mem _ hother) hs' (hfield.refines.trans hscope)
      rw [hrun, if_neg (mt hany.mp hdup)]
      rw [List.append_assoc] at hnew
      exact ⟨scope'', (field.name, ty) :: new, hnew, .cons hdup hfield h⟩

theorem openRecord_resolving {span : Span} {fields : List Field} {binding : TypeBinding}
    (hs : Resolving b start unfinished scope s)
    (hname : b.definition? name = some (.record span fields))
    (hvalue : scope.value? name = some binding) (hbinding : binding.resolved = none) :
    Resolving b start (name :: unfinished)
      (scope.bind name { binding with resolved := some (.record s.registry.records.size) })
      { s with
        types := b.outer.within
          (scope.bind name { binding with resolved := some (.record s.registry.records.size) })
        registry := (s.registry.addRecord name).2 } :=
  hs.change (Refines.settle hvalue (.inl hbinding)) (hs.sound.openRecord hname hvalue hbinding)
    fun hclean hsame => (hs.faultless hclean hsame).settle hname hvalue hbinding (by simp)
      (List.subset_cons_self _ _) fun _ => List.mem_cons_self

theorem lookInto_record_run {resolve : String → Position → CheckM Ty} {span : Span}
    {fields : List Field} {binding : TypeBinding} (htypes : s.types = b.outer.within scope)
    (hvalue : scope.value? name = some binding) {s₁ : Checker}
    (hs₁ : s₁ = { s with
      types := b.outer.within
        (scope.bind name { binding with resolved := some (.record s.registry.records.size) })
      registry := (s.registry.addRecord name).2 }) :
    (resolveDefinition resolve name (.record span fields) >>= conclude name).run s =
      (conclude name (.record s.registry.records.size)).run
        { ((resolveFields resolve [] fields).run s₁).2 with
          registry := ((resolveFields resolve [] fields).run s₁).2.registry.fillRecord
            s.registry.records.size ((resolveFields resolve [] fields).run s₁).1 } := by
  have hsettle : (settle name (.record s.registry.records.size)).run
      { s with registry := (s.registry.addRecord name).2 } = ((), s₁) := by
    rw [hs₁]
    exact settle_run (s := { s with registry := (s.registry.addRecord name).2 }) htypes hvalue _
  have hbind : (resolveDefinition resolve name (.record span fields) >>= conclude name).run s =
      (do
        fillRecord s.registry.records.size (← resolveFields resolve [] fields)
        conclude name (.record s.registry.records.size)).run
          ((settle name (.record s.registry.records.size)).run
            { s with registry := (s.registry.addRecord name).2 }).2 := rfl
  rw [hbind, hsettle]
  rfl

theorem lookInto_record {resolve : String → Position → CheckM Ty} {span : Span}
    {fields : List Field} (hs : Resolving b start unfinished scope s)
    (hname : b.definition? name = some (.record span fields))
    (hopen : scope.resolved? name = none)
    (hresolve : ∀ field ∈ fields, ∀ {scope' s'}, Resolving b start (name :: unfinished) scope' s' →
      Refines scope scope' → (scope'.resolved? name).isSome → ∀ position,
      Finds b start (name :: unfinished) scope' s' field.typeName
        (b.FieldsGrounded ∧ b.Grounded field.typeName)
        ((resolve field.typeName position).run s')) :
    Finds b start unfinished scope s name (b.FieldsGrounded ∧ b.Grounded name)
      ((resolveDefinition resolve name (.record span fields) >>= conclude name).run s) := by
  obtain ⟨binding, hvalue, hbinding⟩ :
      ∃ binding, scope.value? name = some binding ∧ binding.resolved = none := by
    obtain ⟨declared, -, -, hvalue⟩ := hs.bound hname
    exact ⟨_, hvalue, hopen⟩
  set id := s.registry.records.size
  set opened := scope.bind name { binding with resolved := some (.record id) }
  set s₁ : Checker :=
    { s with types := b.outer.within opened, registry := (s.registry.addRecord name).2 }
  have hscope : Refines scope opened := Refines.settle hvalue (.inl hbinding)
  have hid : opened.resolved? name = some (.record id) := by
    simp [opened, Scope.resolved?_settle]
  have hs₁ : Resolving b start (name :: unfinished) opened s₁ :=
    openRecord_resolving hs hname hvalue hbinding
  have hfields : ∃ scope' found, ((resolveFields resolve [] fields).run s₁).1 = [] ++ found ∧
      FieldsFound b start (name :: unfinished) opened s₁ [] fields scope' found
        ((resolveFields resolve [] fields).run s₁).2 :=
    resolveFields_found (by simp) hs₁ fun field hfield {_ _} hs' hscope' =>
      hresolve field hfield hs' (hscope.trans hscope') (by rw [hscope'.resolved? hid]; rfl)
  obtain ⟨scope', found, hfound, h⟩ := hfields
  rw [List.nil_append] at hfound
  set s₂ := ((resolveFields resolve [] fields).run s₁).2
  have hid' := h.refines.resolved? hid
  -- Now that the fields are known, the record is finished.
  have hs₂ : Resolving b start unfinished scope'
      { s₂ with types := b.outer.within scope', registry := s₂.registry.fillRecord id found } := by
    refine h.resolving.change (.refl _)
      (h.resolving.sound.finishRecord hname hid' h.stand) fun hclean hsame => ?_
    have hfaultless := h.resolving.faultless hclean hsame
    refine ⟨hfaultless.types, fun {other _ _} hother hfinished hsome => ?_⟩
    by_cases heq : other = name
    · subst heq
      rw [hname] at hother
      cases hother
      obtain ⟨hnodup, -, htypes⟩ := h.certain hclean hsame
      exact ⟨hnodup, htypes⟩
    · exact hfaultless.fields hother (by simp [heq, hfinished]) hsome
  have hrun : (resolveDefinition resolve name (.record span fields) >>= conclude name).run s =
      (conclude name (.record id)).run
        { s₂ with types := b.outer.within scope', registry := s₂.registry.fillRecord id found } := by
    rw [lookInto_record_run hs.types hvalue (rfl : s₁ = _), ← hfound, ← h.resolving.types]
  obtain ⟨binding', hvalue', hbinding'⟩ := Option.bind_eq_some_iff.mp hid'
  have hconclude := conclude_settled hs₂ hvalue' hbinding' (.record id)
  rw [hrun]
  refine ⟨scope', hconclude.resolving, hscope.trans h.refines, hconclude.stands, hconclude.certain,
    ?_, fun hsilent => ?_⟩
  · exact h.longer.trans hconclude.longer
  · obtain ⟨hnodup, htypes⟩ := hsilent.1 hname
    exact (hconclude.quiet trivial).trans
      (h.quiet hsilent.1 hnodup (by simp) htypes)

theorem walk_finds (hb : b.Unresolved) (hrestart : Restarts b start restart) {fuel : Nat}
    (hs : Resolving b start unfinished scope s) (htrail : Trail b scope visiting name)
    (hfuel : b.declared.length < fuel + visiting.length) :
    Finds b start unfinished scope s name (b.FieldsGrounded ∧ b.Grounded name)
      ((walk restart fuel visiting name position).run s) := by
  induction fuel generalizing unfinished scope s visiting name position with
  | zero =>
    have hle := htrail.length_le
    omega
  | succ fuel ih =>
    cases hdefinition : b.definition? name with
    | none =>
      have hvalue : scope.value? name = none := by
        rw [hs.refines.value?_eq_none_iff]
        cases hdeclared : b.declared.value? name with
        | none => rfl
        | some binding =>
          have hsome := (hb.open_ hdeclared).2
          simp [TypeBlock.definition?, hdeclared] at hdefinition
          simp [hdefinition] at hsome
      have hfind : s.types.find? name = b.outer.find? name := by
        rw [hs.types, Scopes.find?_within, hvalue, Option.none_or]
      cases houter : b.outer.find? name with
      | some binding =>
        obtain ⟨ty, hty⟩ := Option.isSome_iff_exists.mp (hb.outer houter)
        rw [walk_settled (hfind.trans houter) hty]
        exact ⟨scope, hs.found (hfind.trans houter) hty _⟩
      | none =>
        rw [walk_unknown (hfind.trans houter)]
        have hne := diagnostics_ne_of_report hs.diagnostics (.undefinedName .type name) position
        have hdead : b.Dead name := ⟨hs.refines.value?_eq_none_iff.mp hvalue, .inl houter⟩
        have hpush : s.diagnostics.toList <+: (s.diagnostics.push
          ⟨.undefinedName .type name, position⟩).toList := by simp
        refine ⟨scope, hs.report _ _, .refl _, ?_, fun _ hsame => absurd hsame hne, hpush,
          fun hsilent => absurd hdead hsilent.2.not_dead⟩
        rw [Stands, ← hs.types, hfind, houter]
    | some definition =>
      obtain ⟨declared, hentry⟩ := hs.entry hdefinition
      cases hresolved : scope.resolved? name with
      | some ty =>
        rw [walk_settled hentry hresolved]
        exact ⟨scope, hs.found hentry hresolved _⟩
      | none =>
        rw [hresolved] at hentry
        by_cases hmem : name ∈ visiting
        · rw [walk_again hentry hmem]
          exact resolveLoop_finds hrestart hs htrail hmem hresolved
        · rw [walk_on hentry hmem]
          have hfuel' : ∀ {m : String},
              b.declared.length < fuel + (visiting ++ [m]).length := by
            intro m
            rw [List.length_append, List.length_singleton]
            omega
          cases hnext : b.next? name with
          | some target =>
            refine lookInto_next hdefinition hnext fun position => ?_
            obtain ⟨scope', hfound⟩ := ih hs (htrail.next hmem hnext) hfuel'
            exact ⟨scope', hfound.imp fun hsilent =>
              ⟨hsilent.1, TypeBlock.Grounded.leads (.single hnext) hsilent.2⟩⟩
          | none =>
            cases definition with
            | name span target => simp [TypeBlock.next?, hdefinition] at hnext
            | array span element => simp [TypeBlock.next?, hdefinition] at hnext
            | record span fields =>
              refine lookInto_record hs hdefinition hresolved
                fun field hfield {_ _} hs' hscope hsome position => ?_
              exact ih hs' ((htrail.refine hscope).field hmem hdefinition hfield hsome) hfuel'

theorem straight_length_le {path : List String}
    (hpath : List.IsChain (fun m n => b.next? m = some n) (name :: path))
    (hnodup : (name :: path).Nodup) : path.length ≤ b.declared.length := by
  have hdeclared : ∀ m ∈ (name :: path).dropLast, m ∈ b.declared.map Prod.fst := by
    clear hnodup
    induction path generalizing name with
    | nil => simp
    | cons target rest ih =>
      rw [List.isChain_cons_cons] at hpath
      intro m hm
      rw [List.dropLast_cons_cons] at hm
      rcases List.mem_cons.mp hm with rfl | hm
      · obtain ⟨definition, hdefinition, -⟩ := TypeBlock.declared_of_next? hpath.1
        exact TypeBlock.mem_names_of_definition? hdefinition
      · exact ih hpath.2 m hm
  have hle := (hnodup.sublist (List.dropLast_sublist _)).length_le_of_subset hdeclared
  simpa using hle

theorem freshWalk_restarts {fuel : Nat} (hfuel : b.declared.length < fuel) (rounds : Nat) :
    Restarts b start (freshWalk fuel (rounds + 1)) := by
  intro unfinished scope s name path hs hpath hend hnodup position
  obtain ⟨m, hm, ty, hty⟩ := hend
  have hlength := straight_length_le hpath hnodup
  exact walk_straight hs ⟨hpath, ⟨m, List.mem_cons_of_mem _ hm, ty, hty⟩, hnodup, by simp⟩
    (Nat.lt_of_le_of_lt hlength hfuel)

theorem declared_length_le (hb : b.Unresolved) (hs : Resolving b start unfinished scope s) :
    b.declared.length ≤ s.types.size := by
  have hknown : ∀ m ∈ b.declared.map Prod.fst, (s.types.find? m).isSome := by
    intro m hm
    have hvalue : scope.value? m ≠ none := by
      rw [ne_eq, hs.refines.value?_eq_none_iff, Scope.value?_eq_none_iff]
      exact not_not_intro hm
    obtain ⟨binding, hbinding⟩ := Option.ne_none_iff_exists'.mp hvalue
    rw [hs.types, Scopes.find?_within, hbinding, Option.some_or, Option.isSome_some]
  simpa only [List.length_map] using Scopes.length_le_size hb.nodup hknown

theorem typeNamed_run (name : String) (position : Position) (s : Checker) :
    (typeNamed name position).run s =
      (walk (freshWalk (s.types.size + 1) 2) (s.types.size + 1) [] name position).run s := by
  unfold typeNamed resolveFrom
  exact run_get_bind s _

theorem typeNamed_finds (hb : b.Unresolved) (hs : Resolving b start unfinished scope s)
    (name : String) (position : Position) :
    Finds b start unfinished scope s name (b.FieldsGrounded ∧ b.Grounded name)
      ((typeNamed name position).run s) := by
  have hlt : b.declared.length < s.types.size + 1 := Nat.lt_succ_of_le (declared_length_le hb hs)
  have hrestart : Restarts b start (freshWalk (s.types.size + 1) 2) :=
    freshWalk_restarts hlt 1
  rw [typeNamed_run]
  exact walk_finds hb hrestart hs (.nil b scope name) hlt

end CheckM

end TigerLang
