import TigerLang.Proofs.Shown
import TigerLang.Proofs.StaticLinks
import TigerLang.Proofs.Writes

/-! The functions that a program declares, those that are known after checking, and their frames
correspond one to one. -/

namespace TigerLang

theorem routinesAccounted_initial : RoutinesAccounted 0 .initial where
  marked := by simp [Checker.initial, Facts.empty]
  valid := by simp [Checker.initial, Facts.empty]
  injective := by simp [Checker.initial, Facts.empty]
  surjective := by simp [Checker.initial, Facts.empty]
  frame := by simp [Checker.initial, Facts.empty]
  frames := rfl
  count := rfl

theorem Exp.Declares.inj {e : Exp} {around : List Surrounding} {d d' : Dec}
    (h : e.Declares around d) (h' : e.Declares around d') : d = d' := by
  obtain ⟨_, _, decs, _, before, after, -, hdecs, rfl⟩ := h
  obtain ⟨_, _, decs', _, before', after', -, hdecs', heq⟩ := h'
  obtain ⟨hblock, -⟩ := List.cons.inj heq
  obtain ⟨rfl, rfl⟩ := Surrounding.block.inj hblock
  rw [hdecs] at hdecs'
  exact (List.cons.inj (List.append_cancel_left hdecs')).1

section check
variable {e : Exp} {around around' : List Surrounding} {d d' : Dec}

theorem mem_total_of_declares (h : e.Declares around d) (hd : d.isFunction = true) :
    ∃ name, .routine around d.node.id name ∈ total (e.places []) := by
  cases d with
  | function node name params result body =>
    exact ⟨name, h.mem_total (.inl List.mem_cons_self)⟩
  | var => cases hd
  | type => cases hd

theorem declares_unique (hnodup : e.ids.Nodup) (h : e.Declares around d) (hd : d.isFunction = true)
    (h' : e.Declares around' d') (hd' : d'.isFunction = true) (hid : d.node.id = d'.node.id) :
    around = around' ∧ d = d' := by
  obtain ⟨name, hmem⟩ := mem_total_of_declares h hd
  obtain ⟨name', hmem'⟩ := mem_total_of_declares h' hd'
  rw [← hid] at hmem'
  obtain ⟨rest, hrest⟩ := Multiset.exists_cons_of_mem hmem
  have hentries := check_entries hnodup
  rw [hrest, Multiset.filterMap_cons_some Mark.entry? _ _ rfl, Multiset.nodup_cons] at hentries
  rcases Multiset.mem_cons.mp (hrest ▸ hmem') with heq | hmem'
  · obtain ⟨rfl, -⟩ := Mark.routine.inj heq
    exact ⟨rfl, h.inj h'⟩
  · exact (hentries.1 ((Multiset.mem_filterMap _ _).mpr ⟨_, hmem', rfl⟩)).elim

theorem check_routines (hnodup : e.ids.Nodup) :
    RoutinesAccounted (total (e.places []) + {.close []}) (check e) := by
  have hall := (check_history hnodup).keeps RoutinesAccounted.step routinesAccounted_initial
  rwa [zero_add] at hall

theorem declares_of_routineOf (hnodup : e.ids.Nodup) {id k : Nat}
    (h : (check e).facts.routineOf[id]? = some k) :
    ∃ around node name params result body,
      e.Declares around (.function node name params result body) ∧ node.id = id := by
  obtain ⟨around, name, hmem⟩ := (check_routines hnodup).marked h
  rcases Multiset.mem_add.mp hmem with hmem | hmem
  · obtain ⟨node, params, result, body, hdec, hid⟩ := routine_mem_total.mp hmem
    exact ⟨around, node, name, params, result, body, hdec, hid⟩
  · cases Multiset.mem_singleton.mp hmem

theorem check_function_iff (hnodup : e.ids.Nodup) {id : Nat} :
    (∃ k, (check e).facts.routineOf[id]? = some k) ↔
      ∃ around d, e.Declares around d ∧ d.isFunction = true ∧ d.node.id = id := by
  constructor
  · rintro ⟨k, hk⟩
    obtain ⟨around, node, name, params, result, body, hdec, hid⟩ := declares_of_routineOf hnodup hk
    exact ⟨around, _, hdec, rfl, hid⟩
  · rintro ⟨around, d, hdec, hfunction, rfl⟩
    obtain ⟨name, hmem⟩ := mem_total_of_declares hdec hfunction
    obtain ⟨info, -, -, hinfo, -⟩ := check_holds hnodup hmem
    obtain ⟨k, hk, -⟩ := Option.bind_eq_some_iff.mp hinfo
    exact ⟨k, hk⟩

theorem check_functions_size (hnodup : e.ids.Nodup) :
    (check e).facts.functions.size = e.functionTotal := by
  have hplaces : routineCount (e.places []) = e.functionTotal := e.routineCount_places []
  have hclose : Multiset.countP (fun mark : Mark => mark.isRoutine = true) {.close []} = 0 := rfl
  rw [(check_routines hnodup).count, Multiset.countP_add, hclose, total, Multiset.coe_countP,
    ← hplaces]
  simp [routineCount]

theorem check_symbol (hnodup : e.ids.Nodup) {k : Nat} {info : Routine}
    (hinfo : (check e).facts.functions[k]? = some info) :
    ∃ (id : Nat) (name : String), (check e).facts.routineOf[id]? = some k ∧
      info.symbol = name ++ "." ++ id.repr := by
  obtain ⟨id, hk⟩ := (check_routines hnodup).surjective (Array.getElem?_eq_some_iff.mp hinfo).1
  obtain ⟨around, node, name, params, result, body, hdec, rfl⟩ := declares_of_routineOf hnodup hk
  obtain ⟨found, -, -, hfound, -, hsymbol, -⟩ :=
    check_holds hnodup (hdec.mem_total (.inl List.mem_cons_self))
  have hinfo' : (check e).facts.routine? node.id = some info := by simp [Facts.routine?, hk, hinfo]
  obtain rfl := Option.some.inj (hfound.symm.trans hinfo')
  exact ⟨node.id, name, hk, hsymbol⟩

theorem check_finalized (hnodup : e.ids.Nodup) {i : Nat} {f : Frame}
    (hf : (check e).frames.frames[i]? = some f) : f.finalized = true := by
  have hroutines := check_routines hnodup
  cases i with
  | zero =>
    have hclose := (check_history hnodup).holds_once.1 (.close [])
      (Multiset.mem_add.mpr (.inr (Multiset.mem_singleton_self _)))
    obtain ⟨frame, g, hframe, hg, hfinalized⟩ := hclose
    obtain rfl := Option.some.inj hframe
    exact Option.some.inj (hf.symm.trans hg) ▸ hfinalized
  | succ k =>
    obtain ⟨hlt, -⟩ := Array.getElem?_eq_some_iff.mp hf
    obtain ⟨id, hk⟩ := hroutines.surjective (by have := hroutines.frames; omega : k < _)
    obtain ⟨around, node, name, params, result, body, hdec, rfl⟩ := declares_of_routineOf hnodup hk
    obtain ⟨frame, g, hframe, hg, hfinalized⟩ :=
      check_holds hnodup (hdec.mem_total (.inr List.mem_cons_self))
    obtain ⟨info, hinfo, rfl⟩ := Option.map_eq_some_iff.mp hframe
    have hk' : (check e).facts.functions[k]? = some info := by
      simpa [Facts.routine?, hk] using hinfo
    rw [hroutines.frame hk'] at hg
    exact Option.some.inj (hf.symm.trans hg) ▸ hfinalized

end check

theorem symbol_inj {name name' : String} {id id' : Nat}
    (h : name ++ "." ++ id.repr = name' ++ "." ++ id'.repr) : id = id' := by
  have hchars : name.toList ++ '.' :: id.repr.toList = name'.toList ++ '.' :: id'.repr.toList := by
    simpa using congrArg String.toList h
  obtain ⟨-, hdigits⟩ := Text.append_cons_inj_of_notMem_right (Text.notMem_repr rfl id)
    (Text.notMem_repr rfl id') hchars
  exact Text.repr_injective (String.toList_injective hdigits)

theorem symbol_ne {name text : String} {id : Nat} (h : '.' ∉ text.toList) :
    name ++ "." ++ id.repr ≠ text := by
  rintro rfl
  simp at h

structure RoutinesMatch (e : Exp) (s : Checker) : Prop where
  declared : ∀ id : Nat, (∃ k, s.facts.routineOf[id]? = some k) ↔
    ∃ around d, e.Declares around d ∧ d.isFunction = true ∧ d.node.id = id
  single : ∀ {around d around' d'}, e.Declares around d → d.isFunction = true →
    e.Declares around' d' → d'.isFunction = true → d.node.id = d'.node.id → around = around' ∧ d = d'
  valid : ∀ {id k : Nat}, s.facts.routineOf[id]? = some k → k < s.facts.functions.size
  numbered : ∀ k < s.facts.functions.size, ∃! id : Nat, s.facts.routineOf[id]? = some k
  functions : s.facts.functions.size = e.functionTotal
  frames : s.frames.frames.size = e.functionTotal + 1
  frame : ∀ {k : Nat} {info}, s.facts.functions[k]? = some info → info.frame = k + 1
  nesting : ∀ {around node name params result body},
    e.Declares around (.function node name params result body) → ∃ info f parent,
      s.facts.routine? node.id = some info ∧ s.frames.frames[info.frame]? = some f ∧
      f.name = info.symbol ∧ f.level = info.level ∧ info.level = 1 + functionDepth around ∧
      f.parent = some parent ∧ frameOf? s.facts around = some parent
  distinct : ∀ {i j : Nat} {a b}, s.facts.functions[i]? = some a → s.facts.functions[j]? = some b →
    a.symbol = b.symbol → i = j
  foreign : ∀ info ∈ s.facts.functions, info.symbol ≠ "main" ∧
    ∀ symbol ∈ LibraryFunction.symbols, info.symbol ≠ symbol
  finalized : ∀ f ∈ s.frames.frames, f.finalized = true

/-- Functions, frames and declarations correspond one to one. -/
theorem parse_routines {file : String} {tokens : List Token} {e : Exp}
    (hparse : (parse file tokens).1 = .ok e) : RoutinesMatch e (check e) := by
  have hnodup := parse_nodup hparse
  have hroutines := check_routines hnodup
  exact {
    declared := fun _ => check_function_iff hnodup
    single := declares_unique hnodup
    valid := hroutines.valid
    numbered := fun k hk => by
      obtain ⟨id, hid⟩ := hroutines.surjective hk
      exact ⟨id, hid, fun other hother => hroutines.injective hother hid⟩
    functions := check_functions_size hnodup
    frames := by rw [hroutines.frames, check_functions_size hnodup]
    frame := hroutines.frame
    nesting := fun {around node name params result body} hdec => by
      obtain ⟨info, f, parent, hinfo, -, -, hdepth, hf, hname, hlevel, hparent, hframe⟩ :=
        check_holds hnodup (hdec.mem_total (.inl List.mem_cons_self))
      exact ⟨info, f, parent, hinfo, hf, hname, hlevel, by omega, hparent, hframe⟩
    distinct := fun {i j a b} ha hb heq => by
      obtain ⟨id, name, hi, ha⟩ := check_symbol hnodup ha
      obtain ⟨id', name', hj, hb⟩ := check_symbol hnodup hb
      obtain rfl := symbol_inj (ha.symm.trans (heq.trans hb))
      exact Option.some.inj (hi.symm.trans hj)
    foreign := fun info hmem => by
      obtain ⟨k, hk⟩ := Array.mem_iff_getElem?.mp hmem
      obtain ⟨id, name, -, hsymbol⟩ := check_symbol hnodup hk
      have hplain : ∀ symbol ∈ LibraryFunction.symbols, '.' ∉ symbol.toList := by decide
      rw [hsymbol]
      exact ⟨symbol_ne (by decide), fun symbol hmem => symbol_ne (hplain symbol hmem)⟩
    finalized := fun f hmem => by
      obtain ⟨i, hi⟩ := Array.mem_iff_getElem?.mp hmem
      exact check_finalized hnodup hi }

theorem parse_routines_nested :
    (parse "nested.tig" (spelled "nested.tig" nestedWords)).1 = .ok nested ∧
    (check nested).facts.functions.toList.map (·.symbol) = ["f.18", "g.13"] ∧
    RoutinesMatch nested (check nested) := by
  have hparse : (parse "nested.tig" (spelled "nested.tig" nestedWords)).1 = .ok nested :=
    parse_eq_ok_getD (by decide +kernel)
  exact ⟨hparse, by decide +kernel, parse_routines hparse⟩

end TigerLang
