import TigerLang.Typing.Scopes

/-! Laws of scopes: what a lookup finds after each of the operations on a table. -/

namespace TigerLang

namespace Scope
variable {α : Type}

@[simp] theorem value?_nil (name : String) : value? ([] : Scope α) name = none := rfl

theorem value?_cons (name other : String) (value : α) (rest : Scope α) :
    value? ((other, value) :: rest) name = if name = other then some value else rest.value? name := by
  unfold value?
  rw [List.lookup_cons]
  by_cases h : name = other
  · simp [h]
  · simp [h, beq_eq_false_iff_ne.mpr h]

theorem value?_bind (name other : String) (value : α) (scope : Scope α) :
    (bind name value scope).value? other = if other = name then some value else scope.value? other := by
  induction scope with
  | nil => simp [bind, value?_cons]
  | cons entry rest ih =>
    obtain ⟨key, old⟩ := entry
    by_cases hkey : key = name
    · subst hkey
      simp only [bind, if_true, value?_cons]
      split <;> rfl
    · simp only [bind, if_neg hkey, value?_cons, ih]
      by_cases ho : other = name
      · have hne : name ≠ key := fun h => hkey h.symm
        simp [ho, hne]
      · simp [ho]

theorem value?_eq_none_iff {scope : Scope α} {name : String} :
    scope.value? name = none ↔ name ∉ scope.map Prod.fst := by
  unfold value?
  rw [List.lookup_eq_none_iff]
  constructor
  · rintro h hmem
    obtain ⟨entry, hentry, rfl⟩ := List.mem_map.mp hmem
    simpa using h entry hentry
  · rintro h entry hentry
    simp only [bne_iff_ne, ne_eq]
    intro heq
    exact h (heq ▸ List.mem_map_of_mem hentry)

theorem mem_of_value? {scope : Scope α} {name : String} {value : α}
    (h : scope.value? name = some value) : (name, value) ∈ scope := by
  induction scope with
  | nil => simp at h
  | cons entry rest ih =>
    obtain ⟨key, old⟩ := entry
    rw [value?_cons] at h
    split at h
    · next heq => simp_all
    · exact List.mem_cons_of_mem _ (ih h)

theorem mem_bind {scope : Scope α} {name : String} {value : α} {entry : String × α}
    (h : entry ∈ scope.bind name value) : entry = (name, value) ∨ entry ∈ scope := by
  induction scope with
  | nil => exact .inl (List.mem_singleton.mp h)
  | cons first rest ih =>
    obtain ⟨other, old⟩ := first
    rw [bind] at h
    split at h
    · rcases List.mem_cons.mp h with heq | hmem
      · exact .inl heq
      · exact .inr (List.mem_cons_of_mem _ hmem)
    · rcases List.mem_cons.mp h with rfl | hmem
      · exact .inr List.mem_cons_self
      · exact (ih hmem).imp_right (List.mem_cons_of_mem _)

theorem value?_of_mem {scope : Scope α} (hnodup : (scope.map Prod.fst).Nodup) {name : String}
    {value : α} (h : (name, value) ∈ scope) : scope.value? name = some value := by
  induction scope with
  | nil => simp at h
  | cons entry rest ih =>
    obtain ⟨key, old⟩ := entry
    rw [List.map_cons, List.nodup_cons] at hnodup
    rw [value?_cons]
    rcases List.mem_cons.mp h with heq | hrest
    · obtain ⟨rfl, rfl⟩ := Prod.mk.inj heq
      simp
    · have hne : name ≠ key := by
        intro heq
        exact hnodup.1 (List.mem_map.mpr ⟨(name, value), hrest, heq⟩)
      rw [if_neg hne]
      exact ih hnodup.2 hrest

theorem value?_insert {done : Scope α} {name : String} (h : name ∉ done.map Prod.fst) (value : α)
    (rest : Scope α) (other : String) : value? (done ++ (name, value) :: rest) other =
      if other = name then some value else value? (done ++ rest) other := by
  induction done with
  | nil => exact value?_cons other name value rest
  | cons entry done ih =>
    obtain ⟨key, old⟩ := entry
    rw [List.map_cons, List.mem_cons, not_or] at h
    rw [List.cons_append, List.cons_append, value?_cons, value?_cons, ih h.2]
    by_cases hname : other = name
    · subst hname
      rw [if_neg h.1, if_pos rfl, if_pos rfl]
    · rw [if_neg hname, if_neg hname]

theorem bind_of_absent {scope : Scope α} {name : String} (value : α)
    (h : scope.value? name = none) : bind name value scope = scope ++ [(name, value)] := by
  induction scope with
  | nil => rfl
  | cons entry rest ih =>
    obtain ⟨key, old⟩ := entry
    rw [value?_cons] at h
    split at h
    · simp at h
    · next hne =>
      have hkey : key ≠ name := fun heq => hne heq.symm
      simp [bind, hkey, ih h]

theorem value?_bind_new (scope : Scope α) (name other : String) (value : α) :
    (if (scope.value? name).isSome then scope else bind name value scope).value? other =
      (scope.value? other).or (if name = other then some value else none) := by
  split
  · next hbound =>
    by_cases heq : name = other
    · subst heq
      obtain ⟨old, hold⟩ := Option.isSome_iff_exists.mp hbound
      rw [hold, Option.some_or]
    · rw [if_neg heq, Option.or_none]
  · next hfree =>
    have hnone : scope.value? name = none := Option.not_isSome_iff_eq_none.mp hfree
    rw [value?_bind]
    by_cases heq : name = other
    · subst heq
      rw [if_pos rfl, if_pos rfl, hnone, Option.none_or]
    · rw [if_neg (fun h => heq (Eq.symm h)), if_neg heq, Option.or_none]

theorem map_fst_bind {scope : Scope α} {name : String} (value : α)
    (h : scope.value? name ≠ none) : (bind name value scope).map Prod.fst = scope.map Prod.fst := by
  induction scope with
  | nil => simp at h
  | cons entry rest ih =>
    obtain ⟨key, old⟩ := entry
    by_cases hkey : key = name
    · simp [bind, hkey]
    · rw [value?_cons, if_neg (fun heq => hkey (Eq.symm heq))] at h
      simp [bind, hkey, ih h]

theorem bind_self {scope : Scope α} {name : String} {value : α}
    (h : scope.value? name = some value) : bind name value scope = scope := by
  induction scope with
  | nil => simp at h
  | cons entry rest ih =>
    obtain ⟨key, old⟩ := entry
    rw [value?_cons] at h
    by_cases hkey : key = name
    · subst hkey
      simp at h
      simp [bind, h]
    · rw [if_neg (fun heq => hkey (Eq.symm heq))] at h
      simp [bind, hkey, ih h]

end Scope

namespace Scopes
variable {α : Type}

def within (outer : Scopes α) (scope : Scope α) : Scopes α := ⟨scope :: outer.inner, outer.root⟩

theorem enter_eq_within (t : Scopes α) : t.enter = t.within [] := rfl

@[simp] theorem leave_within (outer : Scopes α) (scope : Scope α) :
    (outer.within scope).leave = outer := rfl

@[simp] theorem bind_within (outer : Scopes α) (scope : Scope α) (name : String) (value : α) :
    (outer.within scope).bind name value = outer.within (scope.bind name value) := rfl

theorem exists_bind_within {t outer : Scopes α} (h : ∃ scope, t = outer.within scope)
    (name : String) (value : α) : ∃ scope, t.bind name value = outer.within scope := by
  obtain ⟨scope, rfl⟩ := h
  exact ⟨_, bind_within outer scope name value⟩

@[simp] theorem here?_within (outer : Scopes α) (scope : Scope α) (name : String) :
    (outer.within scope).here? name = scope.value? name := rfl

@[simp] theorem hasHere_within (outer : Scopes α) (scope : Scope α) (name : String) :
    (outer.within scope).hasHere name = (scope.value? name).isSome := rfl

theorem find?_within (outer : Scopes α) (scope : Scope α) (name : String) :
    (outer.within scope).find? name = (scope.value? name).or (outer.find? name) := by
  unfold find? scopes within
  rw [List.cons_append, List.findSome?_cons]
  cases scope.value? name <;> rfl

@[simp] theorem find?_within_nil (outer : Scopes α) (name : String) :
    (outer.within []).find? name = outer.find? name := by
  simp [find?_within]

theorem find?_bind (t : Scopes α) (name : String) (value : α) (other : String) :
    (t.bind name value).find? other = if other = name then some value else t.find? other := by
  obtain ⟨inner, root⟩ := t
  cases inner with
  | nil =>
    have hroot : ∀ root : Scope α, find? ⟨[], root⟩ other = root.value? other := by
      intro root
      simp [find?, scopes]
    rw [bind, hroot, hroot, Scope.value?_bind]
  | cons scope outer =>
    change ((within ⟨outer, root⟩ scope).bind name value).find? other = _
    rw [bind_within, find?_within, Scope.value?_bind]
    split
    · rfl
    · rw [← find?_within]
      rfl

theorem hasHere_bind (t : Scopes α) (name : String) (value : α) (other : String) :
    (t.bind name value).hasHere other = true ↔ other = name ∨ t.hasHere other = true := by
  have hcurrent : (t.bind name value).current = t.current.bind name value := by
    obtain ⟨inner, root⟩ := t
    cases inner <;> rfl
  rw [hasHere, here?, hcurrent, Scope.value?_bind]
  split
  · next h => simp [h]
  · next h => simp [h, hasHere, here?]

theorem change_within {outer : Scopes α} {scope : Scope α} {name : String} {value : α}
    (f : α → α) (h : scope.value? name = some value) :
    (outer.within scope).change name f = outer.within (scope.bind name (f value)) := by
  unfold change within
  simp only [changeScopes, h]

theorem find?_isSome_iff {t : Scopes α} {name : String} :
    (t.find? name).isSome ↔ name ∈ t.scopes.flatten.map Prod.fst := by
  unfold find?
  rw [List.findSome?_isSome_iff]
  simp only [List.mem_map, List.mem_flatten]
  constructor
  · rintro ⟨scope, hscope, hvalue⟩
    obtain ⟨value, hvalue⟩ := Option.isSome_iff_exists.mp hvalue
    exact ⟨(name, value), ⟨scope, hscope, Scope.mem_of_value? hvalue⟩, rfl⟩
  · rintro ⟨entry, ⟨scope, hscope, hentry⟩, rfl⟩
    refine ⟨scope, hscope, Option.isSome_iff_ne_none.mpr fun hnone => ?_⟩
    exact Scope.value?_eq_none_iff.mp hnone (List.mem_map_of_mem hentry)

theorem length_le_size {t : Scopes α} {names : List String} (hnodup : names.Nodup)
    (h : ∀ name ∈ names, (t.find? name).isSome) : names.length ≤ t.size := by
  have hsub : names ⊆ t.scopes.flatten.map Prod.fst :=
    fun name hname => find?_isSome_iff.mp (h name hname)
  have hle := hnodup.length_le_of_subset hsub
  rwa [List.length_map] at hle

theorem mem_of_find? {t : Scopes α} {name : String} {value : α} (h : t.find? name = some value) :
    ∃ scope ∈ t.scopes, (name, value) ∈ scope := by
  obtain ⟨scope, hscope, hvalue⟩ := List.exists_of_findSome?_eq_some h
  exact ⟨scope, hscope, Scope.mem_of_value? hvalue⟩

end Scopes

end TigerLang
