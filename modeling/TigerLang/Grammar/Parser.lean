import TigerLang.Diagnostic.Basic
import TigerLang.Grammar.Cursor
import TigerLang.Tree.Basic

/-! Reading from a cursor. A reading that fails leaves the cursor where the failure occurred. -/

namespace TigerLang

structure Parser (α : Type) where
  run : Cursor → Except Diagnostic α × Cursor

namespace Parser

variable {α β σ : Type}

instance : Monad Parser where
  pure a := ⟨fun s => (.ok a, s)⟩
  bind p f := ⟨fun s =>
    match p.run s with
    | (.ok a, s') => (f a).run s'
    | (.error e, s') => (.error e, s')⟩

@[simp] theorem run_pure (a : α) (s : Cursor) : (pure a : Parser α).run s = (.ok a, s) := rfl

theorem run_bind (p : Parser α) (f : α → Parser β) (s : Cursor) :
    (p >>= f).run s = match p.run s with
      | (.ok a, s') => (f a).run s'
      | (.error e, s') => (.error e, s') := rfl

theorem ext {p q : Parser α} (h : ∀ s, p.run s = q.run s) : p = q := by
  obtain ⟨f⟩ := p
  obtain ⟨g⟩ := q
  exact congrArg mk (funext h)

instance : LawfulMonad Parser := LawfulMonad.mk' _
  (by
    intro α p
    apply ext
    intro s
    change (p >>= pure).run s = p.run s
    rw [run_bind]
    rcases p.run s with ⟨_ | _, s'⟩ <;> rfl)
  (by intros; rfl)
  (by
    intro α β γ p f g
    apply ext
    intro s
    simp only [run_bind]
    rcases p.run s with ⟨_ | _, s'⟩ <;> rfl)

def look (f : Cursor → α) : Parser α := ⟨fun s => (.ok (f s), s)⟩

def current : Parser Token := look Cursor.current

def kind : Parser TokenKind := look Cursor.kind

def position : Parser Position := look Cursor.position

def fail (d : Diagnostic) : Parser α := ⟨fun s => (.error d, s)⟩

def unexpected : Parser α := ⟨fun s => (.error ⟨.unexpected s.current.value, s.position⟩, s)⟩

def advance : Parser Token := ⟨fun s => (.ok s.current, s.advance)⟩

def freshId : Parser Nat := ⟨fun s => (.ok s.nextId, { s with nextId := s.nextId + 1 })⟩

def spanSince (start : Position) : Parser Span := look fun s => s.spanSince start

def node (start : Position) : Parser Node := do
  let id ← freshId
  let span ← spanSince start
  return ⟨id, span⟩

def expectOr (expected : TokenKind) (failure : Diagnostic) : Parser Token := do
  if (← kind) = expected then advance else fail failure

def expect (expected : TokenKind) : Parser Token := do
  let token ← current
  expectOr expected
    ⟨.unexpectedBecause token.value ("expected " ++ expected.name), token.span.start⟩

def identifier (context : String) : Parser String := do
  let token ← current
  let name ← expectOr .identifier
    ⟨.unexpectedBecause token.value ("expected identifier " ++ context), token.span.start⟩
  return name.value

inductive Round (σ β : Type)
  | again (state : σ)
  | done (answer : β)

def loopFrom (round : σ → Parser (Round σ β)) (state : σ) (s : Cursor) :
    Except Diagnostic β × Cursor :=
  match (round state).run s with
  | (.error e, s') => (.error e, s')
  | (.ok (.done answer), s') => (.ok answer, s')
  | (.ok (.again next), s') =>
    if s'.remaining < s.remaining then loopFrom round next s' else unexpected.run s'
termination_by s.remaining

/-- Repeats `round`. Each round but the last reads at least one token, so there are only finitely
many; a round that read nothing would fail. -/
def loop (round : σ → Parser (Round σ β)) (state : σ) : Parser β := ⟨loopFrom round state⟩

def commaSeparated (stop : TokenKind) (item : Parser α) : Parser (List α) :=
  loop (fun items => do
    if (← kind) = stop then return .done items
    let a ← item
    if (← kind) = .comma then
      let _ ← advance
      return .again (items ++ [a])
    return .done (items ++ [a])) []

end Parser

end TigerLang
