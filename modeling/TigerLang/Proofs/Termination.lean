import TigerLang.Proofs.ScopeStack
import TigerLang.Proofs.Walk

/-! Looking into type names always ends, whatever is declared and whatever has a type already. The
rules below say how a name is looked into and have nothing that counts the steps or the new starts.
What is found by counting is found by the rules, and a new start ends at a record without a further one
and without any report. -/

namespace TigerLang

namespace Scopes

structure Settles (t t' : Scopes TypeBinding) : Prop where
  unbound : ∀ {name}, t.find? name = none → t'.find? name = none
  bound : ∀ {name binding}, t.find? name = some binding →
    ∃ r, t'.find? name = some { binding with resolved := r } ∧ (binding.resolved.isSome → r.isSome)

namespace Settles
variable {t t' t'' : Scopes TypeBinding} {name : String}

theorem refl (t : Scopes TypeBinding) : t.Settles t :=
  ⟨fun h => h, fun {_ binding} h => ⟨binding.resolved, h, fun hsome => hsome⟩⟩

theorem trans (h : t.Settles t') (h' : t'.Settles t'') : t.Settles t'' := by
  refine ⟨fun hnone => h'.unbound (h.unbound hnone), fun {name binding} hsome => ?_⟩
  obtain ⟨r, hr, hkept⟩ := h.bound hsome
  obtain ⟨r', hr', hkept'⟩ := h'.bound hr
  exact ⟨r', hr', fun hresolved => hkept' (hkept hresolved)⟩

theorem change (t : Scopes TypeBinding) (name : String) (ty : Ty) :
    t.Settles (t.change name fun entry => { entry with resolved := some ty }) := by
  constructor
  · intro other hnone
    rw [find?_change]
    split
    · next heq => rw [← heq, hnone, Option.map_none]
    · exact hnone
  · intro other binding hsome
    rw [find?_change]
    split
    · next heq =>
      rw [← heq, hsome, Option.map_some]
      exact ⟨some ty, rfl, fun _ => rfl⟩
    · exact ⟨binding.resolved, hsome, fun hresolved => hresolved⟩

theorem exists_binding {binding : TypeBinding} (h : t.Settles t') (hfind : t'.find? name = some binding) :
    ∃ r, t.find? name = some { binding with resolved := r } := by
  cases hold : t.find? name with
  | none =>
    rw [h.unbound hold] at hfind
    cases hfind
  | some old =>
    obtain ⟨r, hr, -⟩ := h.bound hold
    obtain rfl := Option.some.inj (hfind.symm.trans hr)
    exact ⟨old.resolved, rfl⟩

end Settles

theorem value?_flatten {α : Type} (t : Scopes α) (name : String) :
    Scope.value? t.scopes.flatten name = t.find? name := by
  unfold find?
  induction t.scopes with
  | nil => rfl
  | cons scope outer ih =>
    rw [List.flatten_cons, List.findSome?_cons, ← ih]
    unfold Scope.value?
    rw [List.lookup_append]
    cases List.lookup name scope <;> rfl

theorem resolved?_flatten (t : Scopes TypeBinding) (name : String) :
    Scope.resolved? t.scopes.flatten name = (t.find? name).bind TypeBinding.resolved := by
  rw [Scope.resolved?, value?_flatten]

end Scopes

/-- All type names of a table as one block, where an inner declaration hides an outer one. -/
def TypeBlock.ofTable (t : Scopes TypeBinding) : TypeBlock := ⟨.empty, t.scopes.flatten⟩

section table
variable {t t' : Scopes TypeBinding} {name : String}

theorem Scopes.Settles.definition? (h : t.Settles t') {definition : TypeExp} {r : Option Ty}
    {declared : Position} (hfind : t'.find? name = some ⟨some definition, r, declared⟩) :
    (TypeBlock.ofTable t).definition? name = some definition := by
  obtain ⟨r', hold⟩ := h.exists_binding hfind
  unfold TypeBlock.definition? TypeBlock.ofTable
  rw [Scopes.value?_flatten, hold]
  rfl

theorem Scopes.Settles.exists_entry (h : t.Settles t') {definition : TypeExp}
    (hname : (TypeBlock.ofTable t).definition? name = some definition) :
    ∃ r declared, t'.find? name = some ⟨some definition, r, declared⟩ := by
  unfold TypeBlock.definition? TypeBlock.ofTable at hname
  rw [Scopes.value?_flatten] at hname
  obtain ⟨⟨_, _, declared⟩, hfind, rfl⟩ := Option.bind_eq_some_iff.mp hname
  obtain ⟨r, hr, -⟩ := h.bound hfind
  exact ⟨r, declared, hr⟩

theorem Scopes.Settles.isRecord (h : t.Settles t')
    (hrecord : CheckM.declaresRecord t' name = true) : (TypeBlock.ofTable t).IsRecord name := by
  unfold CheckM.declaresRecord at hrecord
  split at hrecord
  · next definition r declared hfind =>
    have hname := h.definition? hfind
    cases definition with
    | record span fields => exact ⟨span, fields, hname⟩
    | name => cases hrecord
    | array => cases hrecord
  · cases hrecord

theorem Scopes.Settles.resolved?_isSome (h : t.Settles t')
    (hsome : (Scope.resolved? t.scopes.flatten name).isSome) :
    (Scope.resolved? t'.scopes.flatten name).isSome := by
  rw [Scopes.resolved?_flatten] at hsome ⊢
  obtain ⟨ty, hty⟩ := Option.isSome_iff_exists.mp hsome
  obtain ⟨binding, hfind, hresolved⟩ := Option.bind_eq_some_iff.mp hty
  obtain ⟨r, hr, hkept⟩ := h.bound hfind
  rw [hr]
  exact hkept (hresolved ▸ rfl)

theorem Trail.settles {b : TypeBlock} {visiting : List String}
    (h : Trail b t.scopes.flatten visiting name) (hsettles : t.Settles t') :
    Trail b t'.scopes.flatten visiting name :=
  ⟨h.nodup, h.declared, h.chain, fun m hm hrecord =>
    hsettles.resolved?_isSome (h.records m hm hrecord)⟩

end table

namespace CheckM

def openRecord (name : String) : CheckM Nat := do
  let id ← addRecord name
  settle name (.record id)
  return id

section rules
variable (Restart : String → Position → Checker → Ty → Checker → Prop)

mutual

/-- Looking into a name used at a place, in the course of looking into those in `visiting`: from a
state to the type found and the state after it. A new start is made as `Restart` says. -/
inductive Resolves : List String → String → Position → Checker → Ty → Checker → Prop
  | unknown {visiting name position s} (h : s.types.find? name = none) :
      Resolves visiting name position s .error
        ((report (.undefinedName .type name) position).run s).2
  | known {visiting name position s definition ty declared}
      (h : s.types.find? name = some ⟨definition, some ty, declared⟩) :
      Resolves visiting name position s ty s
  | undefined {visiting name position s declared}
      (h : s.types.find? name = some ⟨none, none, declared⟩) :
      Resolves visiting name position s .error s
  | restarted {visiting name position s definition declared ty s'}
      (h : s.types.find? name = some ⟨some definition, none, declared⟩) (hmem : name ∈ visiting)
      (hrecord : ∃ m ∈ (visiting.dropWhile (· != name)).tail, declaresRecord s.types m = true)
      (hrestart : Restart name position s ty s') : Resolves visiting name position s ty s'
  | cyclic {visiting name position s definition declared}
      (h : s.types.find? name = some ⟨some definition, none, declared⟩) (hmem : name ∈ visiting)
      (hrecord : ¬ ∃ m ∈ (visiting.dropWhile (· != name)).tail, declaresRecord s.types m = true) :
      Resolves visiting name position s .error
        (((visiting.dropWhile (· != name)).forM fun m => settle m .error).run
          ((report (.cyclicType name) declared).run s).2).2
  | declared {visiting name position s definition declared found s'}
      (h : s.types.find? name = some ⟨some definition, none, declared⟩) (hmem : name ∉ visiting)
      (hfound : Defines (visiting ++ [name]) name definition s found s') :
      Resolves visiting name position s ((conclude name found).run s').1
        ((conclude name found).run s').2

inductive Defines : List String → String → TypeExp → Checker → Ty → Checker → Prop
  | name {visiting name span target s ty s'} (h : Resolves visiting target span.start s ty s') :
      Defines visiting name (.name span target) s ty s'
  | array {visiting name span target s element s'}
      (h : Resolves visiting target span.start s element s') :
      Defines visiting name (.array span target) s
        ((arrayOf name element ((s'.types.find? name).bind TypeBinding.resolved)).run s').1
        ((arrayOf name element ((s'.types.find? name).bind TypeBinding.resolved)).run s').2
  | record {visiting name span fields s found s'}
      (h : ResolvesFields visiting [] fields ((openRecord name).run s).2 found s') :
      Defines visiting name (.record span fields) s (.record ((openRecord name).run s).1)
        ((fillRecord ((openRecord name).run s).1 found).run s').2

inductive ResolvesFields : List String → List (String × Ty) → List Field → Checker →
    List (String × Ty) → Checker → Prop
  | nil {visiting found s} : ResolvesFields visiting found [] s found s
  | repeated {visiting found field fields s found' s'} (h : field.name ∈ found.map Prod.fst)
      (hrest : ResolvesFields visiting found fields
        ((report (.redefinition .field field.name) field.node.span.start).run s).2 found' s') :
      ResolvesFields visiting found (field :: fields) s found' s'
  | cons {visiting found field fields s ty s₁ found' s'} (h : field.name ∉ found.map Prod.fst)
      (hfield : Resolves visiting field.typeName field.node.span.start s ty s₁)
      (hrest : ResolvesFields visiting (found ++ [(field.name, ty)]) fields s₁ found' s') :
      ResolvesFields visiting found (field :: fields) s found' s'

end

end rules

section unique
variable {Restart : String → Position → Checker → Ty → Checker → Prop} {visiting : List String}
  {name : String} {position declared : Position} {s s' : Checker} {ty : Ty} {definition : TypeExp}

theorem Resolves.of_again (hfind : s.types.find? name = some ⟨some definition, none, declared⟩)
    (hmem : name ∈ visiting) (h : Resolves Restart visiting name position s ty s') :
    (∃ m ∈ (visiting.dropWhile (· != name)).tail, declaresRecord s.types m = true) ∧
        Restart name position s ty s' ∨
      (¬ ∃ m ∈ (visiting.dropWhile (· != name)).tail, declaresRecord s.types m = true) ∧
        ty = .error ∧ s' = (((visiting.dropWhile (· != name)).forM fun m => settle m .error).run
          ((report (.cyclicType name) declared).run s).2).2 := by
  cases h with
  | restarted _ _ hrecord hanew => exact .inl ⟨hrecord, hanew⟩
  | cyclic h _ hrecord =>
    cases hfind.symm.trans h
    exact .inr ⟨hrecord, rfl, rfl⟩
  | declared _ hmem' => exact absurd hmem hmem'
  | unknown h | known h | undefined h => cases hfind.symm.trans h

theorem Resolves.of_declared (hfind : s.types.find? name = some ⟨some definition, none, declared⟩)
    (hmem : name ∉ visiting) (h : Resolves Restart visiting name position s ty s') :
    ∃ found s₁, Defines Restart (visiting ++ [name]) name definition s found s₁ ∧
      ty = ((conclude name found).run s₁).1 ∧ s' = ((conclude name found).run s₁).2 := by
  cases h with
  | declared h _ hfound =>
    cases hfind.symm.trans h
    exact ⟨_, _, hfound, rfl, rfl⟩
  | restarted _ hmem' | cyclic _ hmem' => exact absurd hmem' hmem
  | unknown h | known h | undefined h => cases hfind.symm.trans h

theorem Resolves.unique
    (hrestart : ∀ name position s ty s', Restart name position s ty s' → ∀ ty' s'',
      Restart name position s ty' s'' → ty = ty' ∧ s' = s'')
    (h : Resolves Restart visiting name position s ty s') : ∀ ty' s'',
      Resolves Restart visiting name position s ty' s'' → ty = ty' ∧ s' = s'' := by
  refine @Resolves.rec Restart
    (fun visiting name position s ty s' _ => ∀ ty' s'',
      Resolves Restart visiting name position s ty' s'' → ty = ty' ∧ s' = s'')
    (fun visiting name definition s ty s' _ => ∀ ty' s'',
      Defines Restart visiting name definition s ty' s'' → ty = ty' ∧ s' = s'')
    (fun visiting found fields s found' s' _ => ∀ found'' s'',
      ResolvesFields Restart visiting found fields s found'' s'' → found' = found'' ∧ s' = s'')
    ?unknown ?known ?undefined ?restarted ?cyclic ?declared ?name ?array ?record ?nil ?repeated ?cons
    visiting name position s ty s' h
  case unknown =>
    intro _ _ _ _ hfind ty' s'' h'
    cases h' with
    | unknown => exact ⟨rfl, rfl⟩
    | known h | undefined h | restarted h | cyclic h | declared h => cases hfind.symm.trans h
  case known =>
    intro _ _ _ _ _ _ _ hfind ty' s'' h'
    cases h' with
    | known h =>
      cases hfind.symm.trans h
      exact ⟨rfl, rfl⟩
    | unknown h | undefined h | restarted h | cyclic h | declared h => cases hfind.symm.trans h
  case undefined =>
    intro _ _ _ _ _ hfind ty' s'' h'
    cases h' with
    | undefined => exact ⟨rfl, rfl⟩
    | unknown h | known h | restarted h | cyclic h | declared h => cases hfind.symm.trans h
  case restarted =>
    intro _ _ _ _ _ _ _ _ hfind hmem hrecord hanew ty' s'' h'
    rcases h'.of_again hfind hmem with ⟨-, hanew'⟩ | ⟨hnone, -⟩
    · exact hrestart _ _ _ _ _ hanew _ _ hanew'
    · exact absurd hrecord hnone
  case cyclic =>
    intro _ _ _ _ _ _ hfind hmem hnone ty' s'' h'
    rcases h'.of_again hfind hmem with ⟨hrecord, -⟩ | ⟨-, rfl, rfl⟩
    · exact absurd hrecord hnone
    · exact ⟨rfl, rfl⟩
  case declared =>
    intro _ _ _ _ _ _ _ _ hfind hmem _ ih ty' s'' h'
    obtain ⟨found, s₁, hfound, rfl, rfl⟩ := h'.of_declared hfind hmem
    obtain ⟨rfl, rfl⟩ := ih _ _ hfound
    exact ⟨rfl, rfl⟩
  case name =>
    intro _ _ _ _ _ _ _ _ ih ty' s'' h'
    cases h' with
    | name h => exact ih _ _ h
  case array =>
    intro _ _ _ _ _ _ _ _ ih ty' s'' h'
    cases h' with
    | array h =>
      obtain ⟨rfl, rfl⟩ := ih _ _ h
      exact ⟨rfl, rfl⟩
  case record =>
    intro _ _ _ _ _ _ _ _ ih ty' s'' h'
    cases h' with
    | record h =>
      obtain ⟨rfl, rfl⟩ := ih _ _ h
      exact ⟨rfl, rfl⟩
  case nil =>
    intro _ _ _ found'' s'' h'
    cases h' with
    | nil => exact ⟨rfl, rfl⟩
  case repeated =>
    intro _ _ _ _ _ _ _ hseen _ ih found'' s'' h'
    cases h' with
    | repeated _ hrest => exact ih _ _ hrest
    | cons hnew => exact absurd hseen hnew
  case cons =>
    intro _ _ _ _ _ _ _ _ _ hnew _ _ ihfield ih found'' s'' h'
    cases h' with
    | repeated hseen => exact absurd hseen hnew
    | cons _ hfield hrest =>
      obtain ⟨rfl, rfl⟩ := ihfield _ _ hfield
      exact ih _ _ hrest

end unique

section states
variable (s : Checker)

theorem settles_settle (name : String) (ty : Ty) :
    s.types.Settles ((settle name ty).run s).2.types := .change s.types name ty

theorem settles_forM_settle (names : List String) (ty : Ty) :
    s.types.Settles ((names.forM fun m => settle m ty).run s).2.types := by
  induction names generalizing s with
  | nil => exact .refl _
  | cons name rest ih =>
    rw [run_forM_cons]
    exact (settles_settle s name ty).trans (ih _)

theorem settles_conclude (name : String) (found : Ty) :
    s.types.Settles ((conclude name found).run s).2.types := .change s.types name _

theorem diagnostics_conclude (name : String) (found : Ty) :
    ((conclude name found).run s).2.diagnostics = s.diagnostics := rfl

theorem arrayOf_unchanged (name : String) (element : Ty) (r : Option Ty) :
    ((arrayOf name element r).run s).2.types = s.types ∧
      ((arrayOf name element r).run s).2.diagnostics = s.diagnostics := by
  cases r with
  | some => exact ⟨rfl, rfl⟩
  | none =>
    unfold arrayOf
    dsimp only
    split <;> exact ⟨rfl, rfl⟩

theorem settles_openRecord (name : String) :
    s.types.Settles ((openRecord name).run s).2.types := .change s.types name _

theorem resolved_openRecord {name : String} {binding : TypeBinding}
    (h : s.types.find? name = some binding) :
    (Scope.resolved? ((openRecord name).run s).2.types.scopes.flatten name).isSome := by
  have hchange : ((openRecord name).run s).2.types = s.types.change name fun entry =>
      { entry with resolved := some (.record ((openRecord name).run s).1) } := rfl
  rw [Scopes.resolved?_flatten, hchange, Scopes.find?_change, if_pos rfl, h]
  rfl

end states

structure Looked (Restart : String → Position → Checker → Ty → Checker → Prop) (silent : Prop)
    (visiting : List String) (name : String) (position : Position) (s : Checker)
    (result : Ty × Checker) : Prop where
  resolves : Resolves Restart visiting name position s result.1 result.2
  settles : s.types.Settles result.2.types
  quiet : silent → result.2.diagnostics = s.diagnostics

section looked
variable {Restart : String → Position → Checker → Ty → Checker → Prop} {silent : Prop}
  {visiting : List String} {name : String} {position declared : Position} {s : Checker}
  {definition : TypeExp} {resolve : String → Position → CheckM Ty} {b : TypeBlock}

theorem looked_known {binding : TypeBinding} {ty : Ty} (hfind : s.types.find? name = some binding)
    (hty : binding.resolved = some ty) : Looked Restart silent visiting name position s (ty, s) := by
  obtain ⟨definition, r, declared⟩ := binding
  obtain rfl : r = some ty := hty
  exact ⟨.known hfind, .refl _, fun _ => rfl⟩

theorem looked_next {target : String}
    (hfind : s.types.find? name = some ⟨some definition, none, declared⟩) (hmem : name ∉ visiting)
    (hname : b.definition? name = some definition) (hnext : b.next? name = some target)
    (htarget : ∀ position, Looked Restart silent (visiting ++ [name]) target position s
      ((resolve target position).run s)) :
    Looked Restart silent visiting name position s
      ((resolveDefinition resolve name definition >>= conclude name).run s) := by
  cases definition with
  | name span m =>
    obtain rfl : m = target := by simpa [TypeBlock.next?, hname] using hnext
    obtain ⟨hresolves, hsettles, hquiet⟩ := htarget span.start
    refine ⟨.declared hfind hmem (.name hresolves), hsettles.trans (settles_conclude _ _ _), ?_⟩
    exact fun hsilent => (diagnostics_conclude _ _ _).trans (hquiet hsilent)
  | array span m =>
    obtain rfl : m = target := by simpa [TypeBlock.next?, hname] using hnext
    obtain ⟨hresolves, hsettles, hquiet⟩ := htarget span.start
    set s' := ((resolve m span.start).run s).2
    set element := ((resolve m span.start).run s).1
    obtain ⟨htypes, hdiagnostics⟩ := arrayOf_unchanged s' name element
      ((s'.types.find? name).bind TypeBinding.resolved)
    have harray : s.types.Settles ((arrayOf name element
        ((s'.types.find? name).bind TypeBinding.resolved)).run s').2.types := by
      rw [htypes]
      exact hsettles
    refine ⟨.declared hfind hmem (.array hresolves), harray.trans (settles_conclude _ _ _), ?_⟩
    exact fun hsilent => (diagnostics_conclude _ _ _).trans (hdiagnostics.trans (hquiet hsilent))
  | record span fields => simp [TypeBlock.next?, hname] at hnext

theorem resolveFields_looked (found : List (String × Ty)) (s : Checker) {fields : List Field}
    (h : ∀ field ∈ fields, ∀ s', s.types.Settles s'.types → ∀ position,
      Looked Restart silent visiting field.typeName position s'
        ((resolve field.typeName position).run s')) :
    ResolvesFields Restart visiting found fields s ((resolveFields resolve found fields).run s).1
        ((resolveFields resolve found fields).run s).2 ∧
      s.types.Settles ((resolveFields resolve found fields).run s).2.types := by
  induction fields generalizing found s with
  | nil => exact ⟨.nil, .refl _⟩
  | cons field fields ih =>
    have hany : (found.any fun entry => entry.1 == field.name) = true ↔
        field.name ∈ found.map Prod.fst := by
      rw [List.any_eq_true, List.mem_map]
      simp only [beq_iff_eq]
    rw [resolveFields]
    split
    · next hseen =>
      obtain ⟨hrest, hsettles⟩ := ih found
        ((report (.redefinition .field field.name) field.node.span.start).run s).2
        fun other hother => h other (List.mem_cons_of_mem _ hother)
      exact ⟨.repeated (hany.mp hseen) hrest, hsettles⟩
    · next hseen =>
      have hfield := h field List.mem_cons_self s (.refl _) field.node.span.start
      obtain ⟨hrest, hsettles⟩ := ih (found ++ [(field.name, _)]) _
        fun other hother s' hs' => h other (List.mem_cons_of_mem _ hother) s' (hfield.settles.trans hs')
      exact ⟨.cons (fun hmem => hseen (hany.mpr hmem)) hfield.resolves hrest,
        hfield.settles.trans hsettles⟩

theorem looked_record {span : Span} {fields : List Field}
    (hfind : s.types.find? name = some ⟨some (.record span fields), none, declared⟩)
    (hmem : name ∉ visiting)
    (h : ∀ field ∈ fields, ∀ s', ((openRecord name).run s).2.types.Settles s'.types → ∀ position,
      Looked Restart False (visiting ++ [name]) field.typeName position s'
        ((resolve field.typeName position).run s')) :
    Looked Restart False visiting name position s
      ((resolveDefinition resolve name (.record span fields) >>= conclude name).run s) := by
  obtain ⟨hfields, hsettles⟩ := resolveFields_looked [] ((openRecord name).run s).2 h
  refine ⟨.declared hfind hmem (.record hfields), ?_, False.elim⟩
  exact ((settles_openRecord s name).trans hsettles).trans (settles_conclude _ _ _)

end looked

def Never (_ : String) (_ : Position) (_ : Checker) (_ : Ty) (_ : Checker) : Prop := False

/-- A new start: with no names on the way, without a further new start, and without a report. -/
def StartsAnew (name : String) (position : Position) (s : Checker) (ty : Ty) (s' : Checker) : Prop :=
  Resolves Never [] name position s ty s' ∧ s'.diagnostics = s.diagnostics

section walk
variable {t : Scopes TypeBinding} {s : Checker} {visiting : List String} {name : String}
  {position : Position} {restart : String → Position → CheckM Ty} {fuel : Nat}

def Straight (t : Scopes TypeBinding) (s : Checker) (name : String) (path : List String) : Prop :=
  List.IsChain (fun m n => (TypeBlock.ofTable t).next? m = some n) (name :: path) ∧
    (∃ m ∈ name :: path, ∃ ty, Scope.resolved? s.types.scopes.flatten m = some ty) ∧
    (name :: path).Nodup

theorem walk_undefined {declared : Position} (h : s.types.find? name = some ⟨none, none, declared⟩) :
    (walk restart (fuel + 1) visiting name position).run s = (.error, s) := by
  simp only [walk, StateT.run_bind, StateT.run_get, pure_bind, h]
  rfl

theorem exists_binding_of_resolved? {m : String} {ty : Ty}
    (h : Scope.resolved? s.types.scopes.flatten m = some ty) :
    ∃ binding, s.types.find? m = some binding ∧ binding.resolved = some ty := by
  rw [Scopes.resolved?_flatten] at h
  exact Option.bind_eq_some_iff.mp h

theorem walk_straight_looked {path : List String} (hs : t.Settles s.types)
    (hpath : ClearPath (TypeBlock.ofTable t) s.types.scopes.flatten visiting name path)
    (hfuel : path.length < fuel) :
    Looked Never True visiting name position s
      ((walk restart fuel visiting name position).run s) := by
  induction path generalizing name visiting fuel position with
  | nil =>
    obtain ⟨fuel, rfl⟩ := Nat.exists_eq_add_one_of_ne_zero (Nat.ne_of_gt hfuel)
    obtain ⟨m, hm, ty, hty⟩ := hpath.ends
    obtain rfl := List.mem_singleton.mp hm
    obtain ⟨binding, hfind, hresolved⟩ := exists_binding_of_resolved? hty
    rw [walk_settled hfind hresolved]
    exact looked_known hfind hresolved
  | cons target rest ih =>
    obtain ⟨fuel, rfl⟩ : ∃ n, fuel = n + 1 :=
      Nat.exists_eq_add_one_of_ne_zero (Nat.ne_of_gt (Nat.lt_of_le_of_lt (Nat.zero_le _) hfuel))
    have hnext : (TypeBlock.ofTable t).next? name = some target :=
      (List.isChain_cons_cons.mp hpath.chain).1
    have haway := hpath.away name List.mem_cons_self
    obtain ⟨definition, hname, -⟩ := TypeBlock.declared_of_next? hnext
    obtain ⟨r, declared, hfind⟩ := hs.exists_entry hname
    have hresolved : Scope.resolved? s.types.scopes.flatten name = r := by
      rw [Scopes.resolved?_flatten, hfind]
      rfl
    cases r with
    | some ty =>
      rw [walk_settled hfind rfl]
      exact looked_known hfind rfl
    | none =>
      rw [walk_on hfind haway]
      apply looked_next hfind haway hname hnext
      intro position
      exact ih (hpath.tail hresolved) (Nat.lt_of_succ_lt_succ hfuel)

theorem freshWalk_startsAnew {path : List String} (hs : t.Settles s.types)
    (hpath : Straight t s name path) (hfuel : t.size < fuel) (rounds : Nat) :
    StartsAnew name position s ((freshWalk fuel (rounds + 1) name position).run s).1
        ((freshWalk fuel (rounds + 1) name position).run s).2 ∧
      s.types.Settles ((freshWalk fuel (rounds + 1) name position).run s).2.types := by
  obtain ⟨hchain, hend, hnodup⟩ := hpath
  have hlength : path.length ≤ t.size := straight_length_le hchain hnodup
  have hlooked : Looked Never True [] name position s
      ((walk (freshWalk fuel rounds) fuel [] name position).run s) :=
    walk_straight_looked hs ⟨hchain, hend, hnodup, fun _ _ => List.not_mem_nil⟩
      (Nat.lt_of_le_of_lt hlength hfuel)
  exact ⟨⟨hlooked.resolves, hlooked.quiet trivial⟩, hlooked.settles⟩

/-- From a name that is met again, a straight path leads to a record that was met in between, which
has its number. -/
theorem exists_straight_of_again (hs : t.Settles s.types)
    (htrail : Trail (TypeBlock.ofTable t) s.types.scopes.flatten visiting name)
    (hmem : name ∈ visiting) (hopen : Scope.resolved? s.types.scopes.flatten name = none)
    (hrecord : ∃ m ∈ (visiting.dropWhile (· != name)).tail, declaresRecord s.types m = true) :
    ∃ path, Straight t s name path := by
  obtain ⟨m, hm, hdeclares⟩ := hrecord
  obtain ⟨path, hstraight, ⟨k, hk, hksome⟩, hnodup⟩ :=
    htrail.straight hmem hopen ⟨m, hm, hs.isRecord hdeclares⟩
  exact ⟨path, hstraight, ⟨k, List.mem_cons_of_mem _ hk, hksome⟩, hnodup⟩

theorem resolveLoop_looked {definition : TypeExp} {declared : Position} (hs : t.Settles s.types)
    (hrestart : ∀ path, Straight t s name path →
      StartsAnew name position s ((restart name position).run s).1 ((restart name position).run s).2 ∧
        s.types.Settles ((restart name position).run s).2.types)
    (htrail : Trail (TypeBlock.ofTable t) s.types.scopes.flatten visiting name)
    (hfind : s.types.find? name = some ⟨some definition, none, declared⟩) (hmem : name ∈ visiting) :
    Looked StartsAnew False visiting name position s
      ((resolveLoop restart name declared position (visiting.dropWhile (· != name))).run s) := by
  have hopen : Scope.resolved? s.types.scopes.flatten name = none := by
    rw [Scopes.resolved?_flatten, hfind]
    rfl
  have hrun : (resolveLoop restart name declared position (visiting.dropWhile (· != name))).run s =
      (if (visiting.dropWhile (· != name)).tail.any (declaresRecord s.types) then restart name position
        else do
          report (.cyclicType name) declared
          (visiting.dropWhile (· != name)).forM fun m => settle m .error
          return .error).run s := rfl
  rw [hrun]
  split
  · next hany =>
    have hrecord := List.any_eq_true.mp hany
    obtain ⟨path, hpath⟩ := exists_straight_of_again hs htrail hmem hopen hrecord
    obtain ⟨hanew, hsettles⟩ := hrestart path hpath
    exact ⟨.restarted hfind hmem hrecord hanew, hsettles, False.elim⟩
  · next hany =>
    have hrecord := mt List.any_eq_true.mpr hany
    have hsettles := settles_forM_settle ((report (.cyclicType name) declared).run s).2
      (visiting.dropWhile (· != name)) .error
    exact ⟨.cyclic hfind hmem hrecord, hsettles, False.elim⟩

/-- A walk goes by the rules: the names on the way are different and declared, so there is always
fuel left. -/
theorem walk_looked (hs : t.Settles s.types)
    (hrestart : ∀ s name position path, t.Settles s.types → Straight t s name path →
      StartsAnew name position s ((restart name position).run s).1 ((restart name position).run s).2 ∧
        s.types.Settles ((restart name position).run s).2.types)
    (htrail : Trail (TypeBlock.ofTable t) s.types.scopes.flatten visiting name)
    (hfuel : t.size < fuel + visiting.length) :
    Looked StartsAnew False visiting name position s
      ((walk restart fuel visiting name position).run s) := by
  induction fuel generalizing s visiting name position with
  | zero =>
    have hle : visiting.length ≤ t.size := htrail.length_le
    omega
  | succ fuel ih =>
    cases hfind : s.types.find? name with
    | none =>
      rw [walk_unknown hfind]
      exact ⟨.unknown hfind, .refl _, False.elim⟩
    | some binding =>
      obtain ⟨definition?, r, declared⟩ := binding
      cases r with
      | some ty =>
        rw [walk_settled hfind rfl]
        exact looked_known hfind rfl
      | none =>
        cases definition? with
        | none =>
          rw [walk_undefined hfind]
          exact ⟨.undefined hfind, .refl _, False.elim⟩
        | some definition =>
          by_cases hmem : name ∈ visiting
          · rw [walk_again hfind hmem]
            exact resolveLoop_looked hs (fun path => hrestart s name position path hs) htrail hfind hmem
          · rw [walk_on hfind hmem]
            have hname := hs.definition? hfind
            have hfuel' : t.size < fuel + (visiting ++ [name]).length := by
              rw [List.length_append, List.length_singleton]
              omega
            cases hnext : (TypeBlock.ofTable t).next? name with
            | some target =>
              apply looked_next hfind hmem hname hnext
              intro position
              exact ih hs (htrail.next hmem hnext) hfuel'
            | none =>
              cases definition with
              | name span target => simp [TypeBlock.next?, hname] at hnext
              | array span element => simp [TypeBlock.next?, hname] at hnext
              | record span fields =>
                apply looked_record hfind hmem
                intro field hfield s' hs' position
                have hsettles := (settles_openRecord s name).trans hs'
                apply ih (hs.trans hsettles) _ hfuel'
                apply (htrail.settles hsettles).field hmem hname hfield
                exact hs'.resolved?_isSome (resolved_openRecord s hfind)

end walk

theorem StartsAnew.unique (name : String) (position : Position) (s : Checker) (ty : Ty) (s' : Checker)
    (h : StartsAnew name position s ty s') (ty' : Ty) (s'' : Checker)
    (h' : StartsAnew name position s ty' s'') : ty = ty' ∧ s' = s'' :=
  Resolves.unique (fun _ _ _ _ _ hnever => hnever.elim) h.1 ty' s'' h'.1

/-- Looking into a name always ends, whatever the state: the rules lead to one type and one state, and
they are those found by counting. Where a record is met between a name and itself, the new start
reaches no further one and reports nothing. -/
theorem typeNamed_resolves (name : String) (position : Position) (s : Checker) (ty : Ty)
    (s' : Checker) :
    Resolves StartsAnew [] name position s ty s' ↔ (typeNamed name position).run s = (ty, s') := by
  have hlooked : Looked StartsAnew False [] name position s
      ((walk (freshWalk (s.types.size + 1) 2) (s.types.size + 1) [] name position).run s) := by
    apply walk_looked (.refl _) _ (.nil _ _ name) (Nat.lt_succ_self _)
    intro s' name position path hs' hpath
    exact freshWalk_startsAnew hs' hpath (Nat.lt_succ_self _) 1
  have hresolves := hlooked.resolves
  rw [← typeNamed_run] at hresolves
  constructor
  · intro h
    obtain ⟨hty, hs'⟩ := Resolves.unique StartsAnew.unique hresolves ty s' h
    exact Prod.ext hty hs'
  · intro hrun
    rw [hrun] at hresolves
    exact hresolves

def ringTypes : Scopes TypeBinding :=
  (Checker.builtinTypes.bind "row" ⟨some (.array default "cell"), none, .nowhere⟩).bind "cell"
    ⟨some (.record default [⟨default, "next", "row"⟩]), none, .nowhere⟩

-- The array is met again behind the record, and gets its number in a new start.
example :
    ((typeNamed "row" .nowhere).run { Checker.initial with types := ringTypes }).1 = .array 0 ∧
      ((typeNamed "row" .nowhere).run { Checker.initial with types := ringTypes }).2.diagnostics = #[] := by
  decide +kernel

end CheckM

end TigerLang
