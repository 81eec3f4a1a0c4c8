import TigerLang.Proofs.LexicalScope

/-! Checking an expression leaves the environment as it was, and in none of the states in which one
is checked is a type name still to be looked into. -/

namespace TigerLang

/-- What the checker has to work with is the same in the second state as in the first, and what it
has found out before stands unchanged. A frame can only have got slots, and only the current one. -/
structure Checker.Restored (s s' : Checker) : Prop where
  types : s'.types = s.types
  vars : s'.vars = s.vars
  functions : s'.functions = s.functions
  active : s'.frames.active = s.frames.active
  loopDepth : s'.loopDepth = s.loopDepth
  diagnostics : s.diagnostics.toList <+: s'.diagnostics.toList
  records : ∀ {id : Nat} {record}, s.registry.records[id]? = some record →
    s'.registry.records[id]? = some record
  arrays : ∀ {id : Nat} {array}, s.registry.arrays[id]? = some array →
    s'.registry.arrays[id]? = some array
  frames : ∀ {i : Nat} {f}, s.frames.frames[i]? = some f → ∃ more,
    s'.frames.frames[i]? = some { f with slots := f.slots ++ more } ∧
      (i ≠ s.frames.current → more = #[])

theorem Frame.Grows.eq_append {f f' : Frame} (h : f.Grows f')
    (hfinalized : f'.finalized = f.finalized) :
    ∃ more, f' = { f with slots := f.slots ++ more } := by
  obtain ⟨name, level, parent, slots, finalized⟩ := f
  obtain ⟨name', level', parent', slots', finalized'⟩ := f'
  obtain ⟨rfl, rfl, rfl, more, hmore⟩ := h
  obtain rfl := hfinalized
  refine ⟨more.toArray, ?_⟩
  rw [Frame.mk.injEq]
  exact ⟨rfl, rfl, rfl, Array.ext' (by simpa using hmore.symm), rfl⟩

theorem Checker.Keeps.restored {touched : Nat → Prop} {s s' : Checker} (h : s.Keeps touched s') :
    s.Restored s' where
  types := h.env.types
  vars := h.env.vars
  functions := h.env.functions
  active := h.env.active
  loopDepth := h.env.loopDepth
  diagnostics := h.grows.diagnostics
  records hrecord := h.grows.registry.record? hrecord
  arrays harray := h.grows.registry.array? harray
  frames {i f} hf := by
    obtain ⟨f', hf', hgrows, hkept⟩ := h.grows.frames hf
    obtain ⟨hlt, -⟩ := Array.getElem?_eq_some_iff.mp hf
    obtain ⟨hfinalized, hother⟩ := hkept hlt
    by_cases hi : i = s.frames.current
    · obtain ⟨more, rfl⟩ := hgrows.eq_append hfinalized
      exact ⟨more, hf', fun hne => absurd hi hne⟩
    · obtain rfl := hother hi
      exact ⟨#[], by simpa using hf', fun _ => rfl⟩

structure Checker.OnlyBuiltins (s : Checker) : Prop where
  types : s.types.depth = 1 ∧ s.types.scopes =
    [[("int", ⟨none, some .int, .nowhere⟩), ("string", ⟨none, some .string, .nowhere⟩)]]
  vars : s.vars.depth = 1 ∧ s.vars.scopes = [[]]
  functions : s.functions.depth = 1 ∧ s.functions.scopes =
    [LibraryFunction.all.map fun f => (f.name, ⟨f.params, f.result, .library f.symbol⟩)]

theorem check_onlyBuiltins (e : Exp) : (check e).OnlyBuiltins := by
  have henv := (CheckM.inferExp_keeps e _ allResolved_initial).env
  have htypes : (check e).types = Checker.builtinTypes := henv.types
  have hvars : (check e).vars = .empty := henv.vars
  have hfunctions : (check e).functions = Checker.libraryFunctions := henv.functions
  constructor
  · rw [htypes]
    exact ⟨rfl, rfl⟩
  · rw [hvars]
    exact ⟨rfl, rfl⟩
  · rw [hfunctions]
    exact ⟨rfl, rfl⟩

/-- Checking an expression leaves the environment as it was. So a program ends with what the
language provides, and no expression of it is checked before all type names are looked into. -/
theorem inferExp_restores_environment :
    (∀ (s : Checker) (e : Exp), AllResolved s.types → s.Restored ((CheckM.inferExp e).run s).2) ∧
    ∀ e : Exp, (check e).OnlyBuiltins ∧
      ∀ checked ∈ e.checks .initial, AllResolved checked.2.types := by
  constructor
  · intro s e hs
    exact (CheckM.inferExp_keeps e s hs).restored
  · intro e
    exact ⟨check_onlyBuiltins e, e.checks_resolved allResolved_initial⟩

theorem inferExp_restores_environment_nested :
    (∃ checked ∈ nested.checks .initial, checked.2.types.depth = 5 ∧ AllResolved checked.2.types ∧
      checked.2.Restored ((CheckM.inferExp shadowed).run checked.2).2) ∧
    (check shadowed).diagnostics.size = 2 ∧ (check shadowed).OnlyBuiltins := by
  have hdeep : (nested.checks .initial).any (fun checked => checked.2.types.depth == 5) = true := by
    decide +kernel
  obtain ⟨checked, hchecked, hdepth⟩ := List.any_eq_true.mp hdeep
  have hresolved := (inferExp_restores_environment.2 nested).2 checked hchecked
  exact ⟨⟨checked, hchecked, beq_iff_eq.mp hdepth, hresolved,
    inferExp_restores_environment.1 checked.2 shadowed hresolved⟩, by decide +kernel,
    (inferExp_restores_environment.2 shadowed).1⟩

end TigerLang
