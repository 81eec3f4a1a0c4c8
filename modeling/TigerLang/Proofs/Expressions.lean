import TigerLang.Grammar.Program

/-! Reading only goes forward, and every form reads a token before it reads an expression inside it.
So the expressions inside an expression are read as it is read itself: the count of tokens by which
the recursion ends decides nothing. -/

namespace TigerLang.Parser

variable {α β σ : Type} {n : Nat}

theorem run_kind_bind (f : TokenKind → Parser β) (s : Cursor) :
    (kind >>= f).run s = (f s.kind).run s := rfl

def SameBelow (n : Nat) (p q : Parser α) : Prop :=
  ∀ s, s.remaining < n → p.run s = q.run s ∧ (p.run s).2.remaining ≤ s.remaining

namespace SameBelow

theorem bind {p q : Parser α} {f g : α → Parser β} (hp : SameBelow n p q)
    (hf : ∀ a, SameBelow n (f a) (g a)) : SameBelow n (p >>= f) (q >>= g) := by
  intro s hs
  obtain ⟨heq, hle⟩ := hp s hs
  rw [run_bind, run_bind, ← heq]
  rcases hrun : p.run s with ⟨_ | a, s₁⟩
  · simpa [hrun] using hle
  · rw [hrun] at hle
    obtain ⟨heq₁, hle₁⟩ := hf a s₁ (Nat.lt_of_le_of_lt hle hs)
    exact ⟨heq₁, Nat.le_trans hle₁ hle⟩

theorem pure (a : α) : SameBelow n (pure a) (pure a) := fun _ _ => ⟨rfl, Nat.le_refl _⟩

theorem look (f : Cursor → α) : SameBelow n (look f) (look f) := fun _ _ => ⟨rfl, Nat.le_refl _⟩

theorem unexpected : SameBelow n (unexpected : Parser α) unexpected :=
  fun _ _ => ⟨rfl, Nat.le_refl _⟩

theorem fail (d : Diagnostic) : SameBelow n (fail d : Parser α) (fail d) :=
  fun _ _ => ⟨rfl, Nat.le_refl _⟩

theorem freshId : SameBelow n freshId freshId := fun _ _ => ⟨rfl, Nat.le_refl _⟩

theorem advance : SameBelow n advance advance := by
  intro s hs
  refine ⟨rfl, ?_⟩
  change s.advance.remaining ≤ s.remaining
  rw [Cursor.remaining_advance]
  omega

theorem node (start : Position) : SameBelow n (node start) (node start) :=
  freshId.bind fun _ => (look _).bind fun _ => pure _

theorem ite {c : Prop} [Decidable c] {p q p' q' : Parser α} (hp : SameBelow n p p')
    (hq : SameBelow n q q') : SameBelow n (if c then p else q) (if c then p' else q') := by
  split
  · exact hp
  · exact hq

theorem expect (expected : TokenKind) : SameBelow n (expect expected) (expect expected) :=
  (look _).bind fun _ => (look _).bind fun _ => ite advance (fail _)

theorem identifier (context : String) : SameBelow n (identifier context) (identifier context) :=
  (look _).bind fun _ => ((look _).bind fun _ => ite advance (fail _)).bind fun _ => pure _

theorem loop {round round' : σ → Parser (Round σ β)}
    (h : ∀ state, SameBelow n (round state) (round' state)) (state : σ) :
    SameBelow n (loop round state) (loop round' state) := by
  intro s
  change s.remaining < n → loopFrom round state s = loopFrom round' state s ∧
    (loopFrom round state s).2.remaining ≤ s.remaining
  induction hm : s.remaining using Nat.strongRecOn generalizing state s with
  | _ m ih =>
    intro hs
    obtain ⟨heq, hle⟩ := h state s (hm ▸ hs)
    rw [loopFrom, loopFrom, ← heq]
    rcases hrun : (round state).run s with ⟨_ | (next | answer), s₁⟩
    · simpa [hrun, hm] using hle
    · rw [hrun] at hle
      dsimp only at hle ⊢
      split
      · next hlt =>
        obtain ⟨heq₁, hle₁⟩ := ih _ (hm ▸ hlt) next s₁ rfl (by omega)
        exact ⟨heq₁, by omega⟩
      · exact ⟨rfl, hm ▸ hle⟩
    · simpa [hrun, hm] using hle

theorem commaSeparated {item item' : Parser α} (h : SameBelow n item item') (stop : TokenKind) :
    SameBelow n (commaSeparated stop item) (commaSeparated stop item') :=
  loop (fun _ => (look _).bind fun _ => ite (pure _) (h.bind fun _ => (look _).bind fun _ =>
    ite (advance.bind fun _ => pure _) (pure _))) []

end SameBelow

theorem fields_forward (stop : TokenKind) : SameBelow n (fields stop) (fields stop) :=
  .commaSeparated ((SameBelow.look _).bind fun _ => (SameBelow.identifier _).bind fun _ =>
    (SameBelow.expect _).bind fun _ => (SameBelow.identifier _).bind fun _ =>
    (SameBelow.node _).bind fun _ => .pure _) stop

theorem typeExp_forward (g : Grammar) : SameBelow n (typeExp g) (typeExp g) := by
  refine (SameBelow.look _).bind fun kind => ?_
  cases g.typeForm kind with
  | none => exact .unexpected
  | some form =>
    cases form with
    | name => exact (SameBelow.expect _).bind fun _ => .pure _
    | record =>
      exact SameBelow.advance.bind fun _ => (fields_forward _).bind fun _ =>
        (SameBelow.expect _).bind fun _ => (SameBelow.look _).bind fun _ => .pure _
    | array =>
      exact SameBelow.advance.bind fun _ => (SameBelow.expect _).bind fun _ =>
        (SameBelow.identifier _).bind fun _ => (SameBelow.look _).bind fun _ => .pure _

theorem annotation?_forward (context : String) :
    SameBelow n (annotation? context) (annotation? context) :=
  (SameBelow.look _).bind fun _ => .ite
    (SameBelow.advance.bind fun _ => (SameBelow.identifier _).bind fun _ => .pure _) (.pure _)

theorem block_forward (start : Position) (exps : List Exp) :
    SameBelow n (block start exps) (block start exps) := by
  unfold block
  split
  · exact .pure _
  · exact (SameBelow.node _).bind fun _ => .pure _

theorem constant_forward (operator : Token) (value : Int64) :
    SameBelow n (constant operator value) (constant operator value) :=
  SameBelow.freshId.bind fun _ => .pure _

/-- Both readings do the same from a place with `n` tokens after it, and if they succeed there are
fewer. -/
def SameFrom (n : Nat) (p q : Parser α) : Prop :=
  ∀ s, s.remaining = n → p.run s = q.run s ∧ (p.run s).2.remaining ≤ n ∧
    ∀ a s', p.run s = (.ok a, s') → s'.remaining < n

theorem SameFrom.advance {f g : Token → Parser β} (hn : 0 < n) (h : ∀ a, SameBelow n (f a) (g a)) :
    SameFrom n (advance >>= f) (advance >>= g) := by
  intro s hs
  have hlt : s.advance.remaining < n := by
    rw [Cursor.remaining_advance]
    omega
  obtain ⟨heq, hle⟩ := h s.current s.advance hlt
  refine ⟨heq, Nat.le_trans hle (Nat.le_of_lt hlt), fun a s' hrun => ?_⟩
  have hs' : ((f s.current).run s.advance).2 = s' := congrArg Prod.snd hrun
  exact Nat.lt_of_le_of_lt (hs' ▸ hle) hlt

theorem SameFrom.look {f : Cursor → α} {p q : α → Parser β} (h : ∀ a, SameFrom n (p a) (q a)) :
    SameFrom n (look f >>= p) (look f >>= q) := fun s hs => h (f s) s hs

theorem SameFrom.fail (d : Diagnostic) : SameFrom n (fail d : Parser α) (fail d) :=
  fun s hs => ⟨rfl, Nat.le_of_eq hs, fun _ _ hrun => by simp [Parser.fail] at hrun⟩

theorem SameFrom.unexpected : SameFrom n (unexpected : Parser α) unexpected :=
  fun s hs => ⟨rfl, Nat.le_of_eq hs, fun _ _ hrun => by simp [Parser.unexpected] at hrun⟩

theorem literal_same (hn : 0 < n) : SameFrom n literal literal := by
  refine .look fun token => ?_
  split
  · split
    · exact .fail _
    · exact .advance hn fun _ => (SameBelow.node _).bind fun _ => .pure _
  · exact .advance hn fun _ => (SameBelow.node _).bind fun _ => .pure _
  · exact .advance hn fun _ => (SameBelow.node _).bind fun _ => .pure _
  · exact .unexpected

section forms
variable {g : Grammar} {exp exp' : Power → Parser Exp}
  (hexp : ∀ power, SameBelow n (exp power) (exp' power))
include hexp

theorem index_same : SameBelow n (index exp) (index exp') :=
  SameBelow.advance.bind fun _ => (hexp _).bind fun _ => (SameBelow.expect _).bind fun _ => .pure _

theorem variableOrAssignment_same (start : Position) (base : Var) :
    SameBelow n (variableOrAssignment exp start base) (variableOrAssignment exp' start base) := by
  refine (SameBelow.loop (fun base => (SameBelow.look _).bind fun kind => ?_) base).bind fun _ =>
    (SameBelow.look _).bind fun _ => .ite (SameBelow.advance.bind fun _ => (hexp _).bind fun _ =>
      (SameBelow.node _).bind fun _ => .pure _) ((SameBelow.node _).bind fun _ => .pure _)
  split
  · exact SameBelow.advance.bind fun _ => (SameBelow.identifier _).bind fun _ =>
      (SameBelow.node _).bind fun _ => .pure _
  · exact (index_same hexp).bind fun _ => (SameBelow.node _).bind fun _ => .pure _
  · exact .pure _

theorem call_same (start : Position) (function : String) :
    SameBelow n (call exp start function) (call exp' start function) :=
  (SameBelow.expect _).bind fun _ => (SameBelow.commaSeparated (hexp _) _).bind fun _ =>
    (SameBelow.expect _).bind fun _ => (SameBelow.node _).bind fun _ => .pure _

theorem record_same (start : Position) (typeName : String) :
    SameBelow n (record exp start typeName) (record exp' start typeName) :=
  (SameBelow.expect _).bind fun _ => (SameBelow.commaSeparated ((SameBelow.look _).bind fun _ =>
    (SameBelow.identifier _).bind fun _ => (SameBelow.expect _).bind fun _ =>
    (hexp _).bind fun _ => (SameBelow.look _).bind fun _ => .pure _) _).bind fun _ =>
    (SameBelow.expect _).bind fun _ => (SameBelow.node _).bind fun _ => .pure _

theorem sequence_same (stop : TokenKind) : SameBelow n (sequence exp stop) (sequence exp' stop) :=
  (SameBelow.look _).bind fun _ => .ite (.pure _) <| (hexp _).bind fun first =>
    .loop (fun _ => (SameBelow.look _).bind fun _ => .ite (SameBelow.advance.bind fun _ =>
      (hexp _).bind fun _ => .pure _) (.pure _)) [first]

theorem dec_same (form : DecForm) : SameBelow n (dec g exp form) (dec g exp' form) := by
  cases form with
  | type =>
    exact SameBelow.advance.bind fun _ => (SameBelow.identifier _).bind fun _ =>
      (SameBelow.expect _).bind fun _ => (typeExp_forward g).bind fun _ =>
      (SameBelow.node _).bind fun _ => .pure _
  | var =>
    exact SameBelow.advance.bind fun _ => (SameBelow.identifier _).bind fun _ =>
      (annotation?_forward _).bind fun _ => (SameBelow.expect _).bind fun _ =>
      (hexp _).bind fun _ => (SameBelow.node _).bind fun _ => .pure _
  | function =>
    exact SameBelow.advance.bind fun _ => (SameBelow.identifier _).bind fun _ =>
      (SameBelow.expect _).bind fun _ => (fields_forward _).bind fun _ =>
      (SameBelow.expect _).bind fun _ => (annotation?_forward _).bind fun _ =>
      (SameBelow.expect _).bind fun _ => (hexp _).bind fun _ =>
      (SameBelow.node _).bind fun _ => .pure _

theorem decs_same : SameBelow n (decs g exp) (decs g exp') := by
  refine .loop (fun decs => (SameBelow.look _).bind fun kind => ?_) []
  split
  · exact .pure _
  · exact (dec_same hexp _).bind fun _ => .pure _

theorem climb_same (power : Power) (left : Exp) :
    SameBelow n (climb g exp power left) (climb g exp' power left) := by
  refine .loop (fun left => (SameBelow.look _).bind fun kind => ?_) left
  split
  · exact .pure _
  · next next form _ =>
    refine .ite (.pure _) (SameBelow.bind ?_ fun _ => .pure _)
    cases form with
    | logical =>
      exact SameBelow.advance.bind fun _ => (hexp _).bind fun _ => .ite
        ((constant_forward _ _).bind fun _ => (SameBelow.node _).bind fun _ => .pure _)
        ((constant_forward _ _).bind fun _ => (SameBelow.node _).bind fun _ => .pure _)
    | binary =>
      refine (SameBelow.look _).bind fun kind => ?_
      split
      · exact .unexpected
      · exact SameBelow.advance.bind fun _ => (hexp _).bind fun _ =>
          (SameBelow.node _).bind fun _ => .pure _

theorem identifierForm_same (hn : 0 < n) : SameFrom n (identifierForm exp) (identifierForm exp') := by
  refine .advance hn fun token => (SameBelow.look _).bind fun kind => ?_
  split
  · exact call_same hexp _ _
  · exact record_same hexp _ _
  · exact (SameBelow.node _).bind fun _ => (index_same hexp).bind fun _ =>
      (SameBelow.look _).bind fun _ => .ite (SameBelow.advance.bind fun _ => (hexp _).bind fun _ =>
        (SameBelow.node _).bind fun _ => .pure _)
      ((SameBelow.node _).bind fun _ => variableOrAssignment_same hexp _ _)
  · exact (SameBelow.node _).bind fun _ => variableOrAssignment_same hexp _ _

theorem opened_same (hn : 0 < n) (form : Opening) :
    SameFrom n (opened g exp form) (opened g exp' form) := by
  cases form with
  | literal => exact literal_same hn
  | identifier => exact identifierForm_same hexp hn
  | minus =>
    exact .advance hn fun _ => (hexp _).bind fun _ => (constant_forward _ _).bind fun _ =>
      (SameBelow.node _).bind fun _ => .pure _
  | group =>
    exact .advance hn fun _ => (sequence_same hexp _).bind fun _ => (SameBelow.expect _).bind fun _ =>
      block_forward _ _
  | ifForm =>
    exact .advance hn fun _ => (hexp _).bind fun _ => (SameBelow.expect _).bind fun _ =>
      (hexp _).bind fun _ => (SameBelow.look _).bind fun _ => .ite
        (SameBelow.advance.bind fun _ => (hexp _).bind fun _ => (SameBelow.node _).bind fun _ => .pure _)
        ((SameBelow.node _).bind fun _ => .pure _)
  | whileForm =>
    exact .advance hn fun _ => (hexp _).bind fun _ => (SameBelow.expect _).bind fun _ =>
      (hexp _).bind fun _ => (SameBelow.node _).bind fun _ => .pure _
  | forForm =>
    exact .advance hn fun _ => (SameBelow.identifier _).bind fun _ => (SameBelow.expect _).bind fun _ =>
      (hexp _).bind fun _ => (SameBelow.expect _).bind fun _ => (hexp _).bind fun _ =>
      (SameBelow.expect _).bind fun _ => (hexp _).bind fun _ =>
      (SameBelow.node _).bind fun _ => .pure _
  | breakForm => exact .advance hn fun _ => (SameBelow.node _).bind fun _ => .pure _
  | letForm =>
    exact .advance hn fun _ => (decs_same hexp).bind fun _ => (SameBelow.expect _).bind fun _ =>
      (SameBelow.look _).bind fun _ => (sequence_same hexp _).bind fun _ =>
      (block_forward _ _).bind fun _ => (SameBelow.expect _).bind fun _ =>
      (SameBelow.node _).bind fun _ => .pure _

end forms

section expression
variable {g : Grammar} (hg : g.opening .eof = none)
include hg

theorem expressionFrom_step {s : Cursor}
    (ih : ∀ power s', s'.remaining < s.remaining →
      (expressionFrom g power s').2.remaining ≤ s'.remaining) {form : Opening}
    (hform : g.opening s.kind = some form) (power : Power) :
    expressionFrom g power s =
        (opened g (expression g) form >>= climb g (expression g) power).run s ∧
      (expressionFrom g power s).2.remaining ≤ s.remaining := by
  have hpos : 0 < s.remaining := by
    apply Cursor.remaining_pos
    intro heof
    rw [heof, hg] at hform
    cases hform
  have hinner : ∀ innerPower, SameBelow s.remaining (⟨fun s' =>
      if s'.remaining < s.remaining then expressionFrom g innerPower s'
      else unexpected.run s'⟩ : Parser Exp) (expression g innerPower) := by
    intro innerPower s' hlt
    dsimp only
    rw [if_pos hlt]
    exact ⟨rfl, ih innerPower s' hlt⟩
  obtain ⟨heq, hle, hlt⟩ := opened_same (g := g) hinner hpos form s rfl
  rw [expressionFrom, hform]
  dsimp only
  rw [run_bind, run_bind, ← heq]
  rcases hrun : (opened g _ form).run s with ⟨_ | left, s₁⟩
  · rw [hrun] at hle
    exact ⟨rfl, hle⟩
  · have hlt₁ := hlt left s₁ hrun
    obtain ⟨heq₁, hle₁⟩ := climb_same (g := g) hinner power left s₁ hlt₁
    exact ⟨heq₁, Nat.le_trans hle₁ (Nat.le_of_lt hlt₁)⟩

theorem expressionFrom_forward (power : Power) (s : Cursor) :
    (expressionFrom g power s).2.remaining ≤ s.remaining := by
  induction hn : s.remaining using Nat.strongRecOn generalizing power s with
  | _ n ih =>
    cases hform : g.opening s.kind with
    | none =>
      rw [expressionFrom, hform]
      exact Nat.le_of_eq hn
    | some form =>
      have hsmaller : ∀ power s', s'.remaining < s.remaining →
          (expressionFrom g power s').2.remaining ≤ s'.remaining :=
        fun power s' hlt => ih _ (hn ▸ hlt) power s' rfl
      exact hn ▸ (expressionFrom_step hg hsmaller hform power).2

theorem expression_eq (power : Power) :
    expression g power = kind >>= fun first =>
      match g.opening first with
      | none => unexpected
      | some form => opened g (expression g) form >>= climb g (expression g) power := by
  apply ext
  intro s
  change expressionFrom g power s = Parser.run _ s
  cases hform : g.opening s.kind with
  | none => rw [expressionFrom, run_kind_bind, hform]
  | some form =>
    rw [run_kind_bind, hform]
    exact (expressionFrom_step hg (fun power s' _ => expressionFrom_forward hg power s') hform power).1

end expression

end TigerLang.Parser
