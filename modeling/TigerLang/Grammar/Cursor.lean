import TigerLang.Token.Basic

/-! A place in a list of tokens, and the numbers given to the nodes built so far. -/

namespace TigerLang

/-- The tokens before the current one stand last first. The list closes with an end token, which
the cursor never leaves behind. -/
structure Cursor where
  file : String
  past : List Token
  current : Token
  upcoming : List Token
  nextId : Nat
  closed : (upcoming.getLastD current).kind = .eof
  deriving DecidableEq, Repr

namespace Cursor

def closeAfter (last : Token) (tokens : List Token) : List Token :=
  if (tokens.getLastD last).kind = .eof then tokens
  else tokens ++ [Token.atEnd (tokens.getLastD last).span.stop]

theorem closeAfter_closed (last : Token) (tokens : List Token) :
    ((closeAfter last tokens).getLastD last).kind = .eof := by
  unfold closeAfter
  split
  · assumption
  · simp [Token.atEnd]

def ofTokens (file : String) : List Token → Cursor
  | [] => ⟨file, [], Token.atEnd ⟨0, file⟩, [], 0, rfl⟩
  | token :: tokens =>
    ⟨file, [], token, closeAfter token tokens, 0, closeAfter_closed token tokens⟩

/-- At the last token there is nowhere to go. -/
def advance (s : Cursor) : Cursor :=
  match h : s.upcoming with
  | [] => s
  | token :: tokens =>
    { s with
      past := s.current :: s.past
      current := token
      upcoming := tokens
      closed := by simpa [h, List.getLast?_cons] using s.closed }

def index (s : Cursor) : Nat := s.past.length

def remaining (s : Cursor) : Nat := s.upcoming.length

def kind (s : Cursor) : TokenKind := s.current.kind

def position (s : Cursor) : Position := s.current.span.start

def lastEnd (s : Cursor) : Position :=
  match s.past with
  | [] => ⟨0, s.file⟩
  | token :: _ => token.span.stop

def spanSince (s : Cursor) (start : Position) : Span := ⟨start, s.lastEnd⟩

theorem remaining_pos {s : Cursor} (h : s.kind ≠ .eof) : 0 < s.remaining := by
  obtain ⟨file, past, current, upcoming, nextId, closed⟩ := s
  cases upcoming with
  | nil => exact absurd closed h
  | cons token tokens => simp [remaining]

theorem remaining_advance (s : Cursor) : s.advance.remaining = s.remaining - 1 := by
  unfold advance
  split
  · next h => simp [remaining, h]
  · next h => simp [remaining, h]

end Cursor

end TigerLang
