import TigerLang.Proofs.StaticLinks

/-! Names resolve lexically, in every program that can be read. -/

namespace TigerLang

def ResolvesVar (s : Checker) (around : List Surrounding) (node : Node) (name : String) : Prop :=
  match binder? around name with
  | some dec => ∃ use, s.facts.varUses[node.id]? = some use ∧ s.facts.slots[dec]? = some use.slot
  | none => s.facts.varUses[node.id]? = none ∧
      ⟨.undefinedName .variable name, node.span.start⟩ ∈ s.diagnostics

def ResolvesCall (s : Checker) (around : List Surrounding) (node : Node) (name : String) : Prop :=
  match callee? around name with
  | some dec => ∃ id, s.facts.routineOf[dec]? = some id ∧
      s.facts.calls[node.id]? = some (.user id)
  | none =>
    match LibraryFunction.all.find? (·.name == name) with
    | some f => s.facts.calls[node.id]? = some (.library f.symbol)
    | none => s.facts.calls[node.id]? = none ∧
        ⟨.undefinedName .function name, node.span.start⟩ ∈ s.diagnostics

section visited
variable {log : List (Exp × Checker)} {around : List Surrounding} {node : Node} {name : String}
  {s s' : Checker}

theorem resolvesVar_of_visited (h : Visited log ⟨around, .var (.simple node name)⟩ s s')
    (hs : s.facts.varUses[node.id]? = none) : ResolvesVar s' around node name := by
  obtain ⟨entry, hfound, hnoted⟩ := h.simple hs
  unfold ResolvesVar
  match hid : binder? around name, entry with
  | none, none => exact hnoted
  | none, some entry => simp [hid, VarFound] at hfound
  | some dec, none => simp [hid, VarFound] at hfound
  | some dec, some entry =>
    rw [hid] at hfound
    obtain ⟨frame, f, -, -, huse⟩ := hnoted
    exact ⟨_, huse, hfound.1⟩

theorem resolvesCall_of_visited {args : List Exp}
    (h : Visited log ⟨around, .exp (.call node name args)⟩ s s')
    (hs : s.facts.calls[node.id]? = none) : ResolvesCall s' around node name := by
  obtain ⟨entry, hfound, hnoted⟩ := h.call hs
  unfold ResolvesCall
  match hid : callee? around name, entry with
  | none, some entry => simp [hid, FunFound] at hfound
  | some dec, none => simp [hid, FunFound] at hfound
  | none, none =>
    rw [Option.none_or, value?_libraryFunctions] at hnoted
    cases hlibrary : LibraryFunction.all.find? (·.name == name) with
    | none =>
      rw [hlibrary] at hnoted
      exact hnoted
    | some f =>
      rw [hlibrary] at hnoted
      exact hnoted
  | some dec, some entry =>
    rw [hid] at hfound
    obtain ⟨k, -, -, -, htarget, hk, -⟩ := hfound
    exact ⟨k, hk, htarget ▸ hnoted⟩

end visited

/-- Every variable and every call means the nearest thing of its name. -/
theorem parse_lexicalScope {file : String} {tokens : List Token} {e : Exp}
    (hparse : (parse file tokens).1 = .ok e) :
    (∀ around node name, ⟨around, .var (.simple node name)⟩ ∈ e.places [] →
      ResolvesVar (check e) around node name) ∧
    ∀ around node name args, ⟨around, .exp (.call node name args)⟩ ∈ e.places [] →
      ResolvesCall (check e) around node name := by
  have hnodup := parse_nodup hparse
  constructor
  · intro around node name hplace
    exact resolvesVar_of_visited (check_visits hnodup hplace) (by simp [Checker.initial, Facts.empty])
  · intro around node name args hplace
    exact resolvesCall_of_visited (check_visits hnodup hplace)
      (by simp [Checker.initial, Facts.empty])

def shadowWords : List (TokenKind × String) :=
  [(.letWord, "let"),
    (.varWord, "var"), (.identifier, "x"), (.assignment, ":="), (.number, "1"),
    (.functionWord, "function"), (.identifier, "x"), (.openParen, "("), (.identifier, "x"),
    (.colon, ":"), (.identifier, "int"), (.closeParen, ")"), (.colon, ":"), (.identifier, "int"),
    (.equals, "="), (.identifier, "x"),
    (.varWord, "var"), (.identifier, "x"), (.assignment, ":="), (.number, "2"),
    (.varWord, "var"), (.identifier, "y"), (.assignment, ":="), (.identifier, "x"),
    (.openParen, "("), (.identifier, "x"), (.closeParen, ")"),
    (.inWord, "in"), (.forWord, "for"), (.identifier, "x"), (.assignment, ":="), (.identifier, "x"),
    (.toWord, "to"), (.number, "3"), (.doWord, "do"), (.identifier, "printi"), (.openParen, "("),
    (.identifier, "x"), (.plus, "+"), (.identifier, "z"), (.closeParen, ")"),
    (.endWord, "end"), (.eof, "")]

def shadowed : Exp :=
  (parse "shadow.tig" (spelled "shadow.tig" shadowWords)).1.toOption.getD default

theorem parse_lexicalScope_shadowed :
    (parse "shadow.tig" (spelled "shadow.tig" shadowWords)).1 = .ok shadowed ∧
    (∃ around node, ⟨around, .var (.simple node "x")⟩ ∈ shadowed.places [] ∧ node.id = 12 ∧
      binder? around "x" = some 1 ∧ ResolvesVar (check shadowed) around node "x") ∧
    (∃ around node, ⟨around, .var (.simple node "x")⟩ ∈ shadowed.places [] ∧ node.id = 15 ∧
      binder? around "x" = some 21 ∧ ResolvesVar (check shadowed) around node "x") ∧
    (∃ around node, ⟨around, .var (.simple node "z")⟩ ∈ shadowed.places [] ∧ node.id = 17 ∧
      binder? around "z" = none ∧ ResolvesVar (check shadowed) around node "z") ∧
    ∃ around node args, ⟨around, .exp (.call node "x" args)⟩ ∈ shadowed.places [] ∧ node.id = 10 ∧
      callee? around "x" = some 5 ∧ ResolvesCall (check shadowed) around node "x" := by
  have hparse : (parse "shadow.tig" (spelled "shadow.tig" shadowWords)).1 = .ok shadowed :=
    parse_eq_ok_getD (by decide +kernel)
  have hsimple : ∀ id name dec, (shadowed.places []).any (Place.isSimple id name
      fun around => binder? around name == dec) = true →
      ∃ around node, ⟨around, .var (.simple node name)⟩ ∈ shadowed.places [] ∧ node.id = id ∧
        binder? around name = dec ∧ ResolvesVar (check shadowed) around node name := by
    intro id name dec hany
    obtain ⟨around, node, hplace, hid, hdec⟩ := Place.exists_simple hany
    exact ⟨around, node, hplace, hid, beq_iff_eq.mp hdec,
      (parse_lexicalScope hparse).1 around node name hplace⟩
  obtain ⟨around, node, args, hplace, hid, hdec⟩ : ∃ around node args,
      ⟨around, .exp (.call node "x" args)⟩ ∈ shadowed.places [] ∧ node.id = 10 ∧
        (callee? around "x" == some 5) = true := Place.exists_call (by decide +kernel)
  exact ⟨hparse, hsimple 12 "x" (some 1) (by decide +kernel),
    hsimple 15 "x" (some 21) (by decide +kernel), hsimple 17 "z" none (by decide +kernel),
    around, node, args, hplace, hid, beq_iff_eq.mp hdec,
    (parse_lexicalScope hparse).2 around node "x" args hplace⟩

end TigerLang
