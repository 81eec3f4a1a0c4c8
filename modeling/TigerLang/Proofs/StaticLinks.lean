import TigerLang.Proofs.Lookup
import TigerLang.Proofs.Numbering

/-! Static links lead to the right frame, in every program that can be read. -/

namespace TigerLang

structure LeadsToSlot (s : Checker) (around : List Surrounding) (use : VarUse) : Prop where
  level : ∃ frame f, frameOf? s.facts around = some frame ∧ s.frames.frames[frame]? = some f ∧
    use.level = f.level ∧ follow s.frames.frames use.links frame = some use.slot.frame
  outward : use.slot.level ≤ use.level
  slot : ∃ f, s.frames.frames[use.slot.frame]? = some f ∧ use.slot.offset < f.slots.size

/-- The static links from the frame of the nearest function to the one that the frame of a called
function has for its parent. -/
def LeadsToCallee (s : Checker) (around : List Surrounding) (id : Nat) : Prop :=
  ∃ frame f info g p, frameOf? s.facts around = some frame ∧ s.frames.frames[frame]? = some f ∧
    s.facts.functions[id]? = some info ∧ s.frames.frames[info.frame]? = some g ∧
    g.parent = some p ∧
    follow s.frames.frames (staticLinks f.level (info.level - 1)) frame = some p

section visited
variable {log : List (Exp × Checker)} {around : List Surrounding} {node : Node} {name : String}
  {s s' : Checker}

theorem leadsToSlot_of_visited {use : VarUse}
    (h : Visited log ⟨around, .var (.simple node name)⟩ s s')
    (hs : s.facts.varUses[node.id]? = none) (huse : s'.facts.varUses[node.id]? = some use) :
    LeadsToSlot s' around use := by
  obtain ⟨entry, hfound, hnoted⟩ := h.simple hs
  cases entry with
  | none => simp [hnoted.1] at huse
  | some entry =>
    obtain ⟨frame, f, hframe, hf, hnoted⟩ := hnoted
    obtain rfl := Option.some.inj (hnoted.symm.trans huse)
    cases hid : binder? around name with
    | none => simp [hid, VarFound] at hfound
    | some id =>
      rw [hid] at hfound
      obtain ⟨-, ⟨frame', f', hframe', hf', hle, hfollow⟩, hvalid⟩ := hfound
      obtain rfl := Option.some.inj (hframe.symm.trans hframe')
      obtain rfl := Option.some.inj (hf.symm.trans hf')
      exact ⟨⟨frame, f, hframe, hf, rfl, hfollow⟩, hle, hvalid⟩

theorem leadsToCallee_of_visited {args : List Exp} {id : Nat}
    (h : Visited log ⟨around, .exp (.call node name args)⟩ s s')
    (hs : s.facts.calls[node.id]? = none) (hcall : s'.facts.calls[node.id]? = some (.user id)) :
    LeadsToCallee s' around id := by
  obtain ⟨entry, hfound, hnoted⟩ := h.call hs
  cases entry with
  | none =>
    rw [Option.none_or, value?_libraryFunctions] at hnoted
    cases hlibrary : LibraryFunction.all.find? (·.name == name) with
    | none => simp [hlibrary, hcall] at hnoted
    | some f => simp [hlibrary, hcall, LibraryFunction.binding] at hnoted
  | some entry =>
    have htarget : .user id = entry.target := Option.some.inj (hcall.symm.trans hnoted)
    cases hdec : callee? around name with
    | none => simp [hdec, FunFound] at hfound
    | some dec =>
      rw [hdec] at hfound
      obtain ⟨k, info, g, p, hk, -, hinfo, hg, hparent, frame, f, hframe, hf, -, hfollow⟩ := hfound
      obtain rfl : id = k := Callee.user.inj (htarget.trans hk)
      exact ⟨frame, f, info, g, p, hframe, hf, hinfo, hg, hparent, hfollow⟩

end visited

/-- Wherever a variable is used or a function of the program is called, the static links lead from
the frame of the nearest function to that of the variable, or to that in which the called function is
declared. -/
theorem parse_staticLinks {file : String} {tokens : List Token} {e : Exp}
    (hparse : (parse file tokens).1 = .ok e) :
    (∀ around node name use, ⟨around, .var (.simple node name)⟩ ∈ e.places [] →
      (check e).facts.varUses[node.id]? = some use → LeadsToSlot (check e) around use) ∧
    ∀ around node name args id, ⟨around, .exp (.call node name args)⟩ ∈ e.places [] →
      (check e).facts.calls[node.id]? = some (.user id) → LeadsToCallee (check e) around id := by
  have hnodup := parse_nodup hparse
  constructor
  · intro around node name use hplace huse
    exact leadsToSlot_of_visited (check_visits hnodup hplace) (by simp [Checker.initial, Facts.empty])
      huse
  · intro around node name args id hplace hcall
    exact leadsToCallee_of_visited (check_visits hnodup hplace)
      (by simp [Checker.initial, Facts.empty]) hcall

def spelled (file : String) (words : List (TokenKind × String)) : List Token :=
  words.mapIdx fun i word => ⟨word.1, word.2, .ofWidth file i 1⟩

def nestedWords : List (TokenKind × String) :=
  [(.letWord, "let"),
    (.varWord, "var"), (.identifier, "x"), (.assignment, ":="), (.number, "1"),
    (.functionWord, "function"), (.identifier, "f"), (.openParen, "("), (.identifier, "a"),
    (.colon, ":"), (.identifier, "int"), (.closeParen, ")"), (.colon, ":"), (.identifier, "int"),
    (.equals, "="),
    (.letWord, "let"),
    (.functionWord, "function"), (.identifier, "g"), (.openParen, "("), (.identifier, "b"),
    (.colon, ":"), (.identifier, "int"), (.closeParen, ")"), (.colon, ":"), (.identifier, "int"),
    (.equals, "="),
    (.identifier, "f"), (.openParen, "("), (.identifier, "x"), (.plus, "+"), (.identifier, "a"),
    (.plus, "+"), (.identifier, "b"), (.closeParen, ")"),
    (.inWord, "in"), (.identifier, "g"), (.openParen, "("), (.identifier, "a"), (.closeParen, ")"),
    (.endWord, "end"),
    (.inWord, "in"), (.identifier, "f"), (.openParen, "("), (.number, "2"), (.closeParen, ")"),
    (.endWord, "end"), (.eof, "")]

def nested : Exp := (parse "nested.tig" (spelled "nested.tig" nestedWords)).1.toOption.getD default

def Place.isSimple (id : Nat) (name : String) (kind : List Surrounding → Bool) : Place → Bool
  | ⟨around, .var (.simple node other)⟩ => node.id == id && other == name && kind around
  | _ => false

theorem Place.exists_simple {places : List Place} {id : Nat} {name : String}
    {kind : List Surrounding → Bool} (h : places.any (Place.isSimple id name kind) = true) :
    ∃ around node, ⟨around, .var (.simple node name)⟩ ∈ places ∧ node.id = id ∧
      kind around = true := by
  obtain ⟨place, hplace, his⟩ := List.any_eq_true.mp h
  unfold isSimple at his
  split at his
  · next around node other =>
    simp only [Bool.and_eq_true, beq_iff_eq] at his
    obtain ⟨⟨hid, rfl⟩, hkind⟩ := his
    exact ⟨around, node, hplace, hid, hkind⟩
  · simp at his

def Place.isCall (id : Nat) (name : String) (kind : List Surrounding → Bool) : Place → Bool
  | ⟨around, .exp (.call node other _)⟩ => node.id == id && other == name && kind around
  | _ => false

theorem Place.exists_call {places : List Place} {id : Nat} {name : String}
    {kind : List Surrounding → Bool} (h : places.any (Place.isCall id name kind) = true) :
    ∃ around node args, ⟨around, .exp (.call node name args)⟩ ∈ places ∧ node.id = id ∧
      kind around = true := by
  obtain ⟨place, hplace, his⟩ := List.any_eq_true.mp h
  unfold isCall at his
  split at his
  · next around node other args =>
    simp only [Bool.and_eq_true, beq_iff_eq] at his
    obtain ⟨⟨hid, rfl⟩, hkind⟩ := his
    exact ⟨around, node, args, hplace, hid, hkind⟩
  · simp at his

theorem parse_staticLinks_nested :
    (parse "nested.tig" (spelled "nested.tig" nestedWords)).1 = .ok nested ∧
    (∃ around node, ⟨around, .var (.simple node "x")⟩ ∈ nested.places [] ∧
      (check nested).facts.varUses[node.id]? = some ⟨⟨0, 0, 0⟩, 2⟩ ∧
      LeadsToSlot (check nested) around ⟨⟨0, 0, 0⟩, 2⟩) ∧
    ∃ around node args, ⟨around, .exp (.call node "f" args)⟩ ∈ nested.places [] ∧
      (check nested).facts.calls[node.id]? = some (.user 0) ∧
      LeadsToCallee (check nested) around 0 := by
  have hparse : (parse "nested.tig" (spelled "nested.tig" nestedWords)).1 = .ok nested :=
    parse_eq_ok_getD (by decide +kernel)
  have huse : (check nested).facts.varUses[4]? = some ⟨⟨0, 0, 0⟩, 2⟩ := by decide +kernel
  have htarget : (check nested).facts.calls[12]? = some (.user 0) := by decide +kernel
  obtain ⟨around, node, hplace, hid, -⟩ : ∃ around node, ⟨around, .var (.simple node "x")⟩ ∈
      nested.places [] ∧ node.id = 4 ∧ true = true := Place.exists_simple (by decide +kernel)
  obtain ⟨around', node', args, hplace', hid', -⟩ : ∃ around node args,
      ⟨around, .exp (.call node "f" args)⟩ ∈ nested.places [] ∧ node.id = 12 ∧ true = true :=
    Place.exists_call (by decide +kernel)
  rw [← hid] at huse
  rw [← hid'] at htarget
  exact ⟨hparse,
    ⟨around, node, hplace, huse, (parse_staticLinks hparse).1 around node _ _ hplace huse⟩,
    around', node', args, hplace', htarget,
    (parse_staticLinks hparse).2 around' node' _ args 0 hplace' htarget⟩

end TigerLang
