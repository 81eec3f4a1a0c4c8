import TigerLang.Proofs.FrameSlots
import TigerLang.Proofs.Routines
import TigerLang.Proofs.WellTyped

/-! What is noted about a program. There is an entry for each of its nodes and for nothing else, and
nothing is left unknown in a program that is accepted. -/

namespace TigerLang

structure TablesComplete (e : Exp) (s : Checker) : Prop where
  exps : ∀ id : Nat, (∃ ty, s.facts.expTypes[id]? = some ty) ↔
    ∃ around part, ⟨around, .exp part⟩ ∈ e.places [] ∧ part.node.id = id
  vars : ∀ id : Nat, (∃ ty, s.facts.varTypes[id]? = some ty) ↔
    ∃ around part, ⟨around, .var part⟩ ∈ e.places [] ∧ part.node.id = id
  functions : ∀ id : Nat, (∃ k, s.facts.routineOf[id]? = some k) ↔
    ∃ around d, e.Declares around d ∧ d.isFunction = true ∧ d.node.id = id
  slots : ∀ id : Nat, (∃ slot, s.facts.slots[id]? = some slot) ↔
    ∃ around role, e.Binds around id role

structure AllKnown (e : Exp) (s : Checker) : Prop where
  uses : ∀ around node name, ⟨around, .var (.simple node name)⟩ ∈ e.places [] →
    ∃ use, s.facts.varUses[node.id]? = some use
  calls : ∀ around node function args, ⟨around, .exp (.call node function args)⟩ ∈ e.places [] →
    ∃ callee, s.facts.calls[node.id]? = some callee
  clean : Clean s

section check
variable {e : Exp}

theorem check_exp_iff (hnodup : e.ids.Nodup) {id : Nat} :
    (∃ ty, (check e).facts.expTypes[id]? = some ty) ↔
      ∃ around part, ⟨around, .exp part⟩ ∈ e.places [] ∧ part.node.id = id := by
  rw [← exp_mem_total]
  constructor
  · rintro ⟨ty, hty⟩
    rcases Multiset.mem_add.mp ((check_notes hnodup).exps hty) with hmem | hmem
    · exact hmem
    · cases Multiset.mem_singleton.mp hmem
  · exact check_holds hnodup

theorem check_var_iff (hnodup : e.ids.Nodup) {id : Nat} :
    (∃ ty, (check e).facts.varTypes[id]? = some ty) ↔
      ∃ around part, ⟨around, .var part⟩ ∈ e.places [] ∧ part.node.id = id := by
  rw [← var_mem_total]
  constructor
  · rintro ⟨ty, hty⟩
    rcases Multiset.mem_add.mp ((check_notes hnodup).vars hty) with hmem | hmem
    · exact hmem
    · cases Multiset.mem_singleton.mp hmem
  · exact check_holds hnodup

theorem check_tablesComplete (hnodup : e.ids.Nodup) : TablesComplete e (check e) where
  exps _ := check_exp_iff hnodup
  vars _ := check_var_iff hnodup
  functions _ := check_function_iff hnodup
  slots _ := (slot_iff_mem_slotIds hnodup).trans mem_slotIds

theorem check_allKnown (hnodup : e.ids.Nodup) (hnone : (check e).diagnostics = #[]) :
    AllKnown e (check e) where
  uses around node name hplace := by
    have hresolves := resolvesVar_of_visited (check_visits hnodup hplace)
      (by simp [Checker.initial, Facts.empty])
    unfold ResolvesVar at hresolves
    split at hresolves
    · obtain ⟨use, huse, -⟩ := hresolves
      exact ⟨use, huse⟩
    · simp [hnone] at hresolves
  calls around node function args hplace := by
    have hresolves := resolvesCall_of_visited (check_visits hnodup hplace)
      (by simp [Checker.initial, Facts.empty])
    unfold ResolvesCall at hresolves
    split at hresolves
    · obtain ⟨id, -, hcall⟩ := hresolves
      exact ⟨_, hcall⟩
    · split at hresolves
      · exact ⟨_, hresolves⟩
      · simp [hnone] at hresolves
  clean := by
    obtain ⟨hsilent, htyped⟩ := check_verdict hnodup
    obtain ⟨τ, A, hτ⟩ := hsilent.mp hnone
    obtain ⟨rep, hsane, -⟩ := htyped hτ
    exact hsane.clean

end check

/-- Every node of a program that can be read has its entries, and there are no others. If nothing is
reported then nothing is unknown. -/
theorem parse_sideTables {file : String} {tokens : List Token} {e : Exp}
    (hparse : (parse file tokens).1 = .ok e) :
    TablesComplete e (check e) ∧ ((check e).diagnostics = #[] → AllKnown e (check e)) := by
  have hnodup := parse_nodup hparse
  exact ⟨check_tablesComplete hnodup, check_allKnown hnodup⟩

theorem parse_sideTables_listSum :
    ((parse "sum.tig" (spelled "sum.tig" sumWords)).1 = .ok listSum ∧
      (check listSum).diagnostics = #[] ∧
      (check listSum).facts.varTypes.toList.map Prod.fst = [4, 9, 10, 12, 13] ∧
      TablesComplete listSum (check listSum) ∧ AllKnown listSum (check listSum)) ∧
    (parse "shadow.tig" (spelled "shadow.tig" shadowWords)).1 = .ok shadowed ∧
      (check shadowed).diagnostics ≠ #[] ∧ TablesComplete shadowed (check shadowed) := by
  have hlist : (parse "sum.tig" (spelled "sum.tig" sumWords)).1 = .ok listSum :=
    parse_eq_ok_getD (by decide +kernel)
  have hshadow : (parse "shadow.tig" (spelled "shadow.tig" shadowWords)).1 = .ok shadowed :=
    parse_eq_ok_getD (by decide +kernel)
  have hnone : (check listSum).diagnostics = #[] := by decide +kernel
  exact ⟨⟨hlist, hnone, by decide +kernel, (parse_sideTables hlist).1,
    (parse_sideTables hlist).2 hnone⟩, hshadow, by decide +kernel, (parse_sideTables hshadow).1⟩

end TigerLang
