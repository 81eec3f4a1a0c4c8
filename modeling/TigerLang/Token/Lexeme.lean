import TigerLang.Diagnostic.Basic
import TigerLang.Text.Blank
import TigerLang.Token.Basic
import TigerLang.Token.Comment
import TigerLang.Token.Literal

/-! The piece of text that comes next: a gap, which is white space or a comment, or a token. -/

namespace TigerLang

/-- A piece cut off the front of a text, and what comes after it. A gap has no token. -/
structure Lexeme where
  token : Option (TokenKind × String)
  text : List Char
  rest : List Char
  deriving DecidableEq, Repr

namespace Lexeme

def reservedWords : List (List Char × TokenKind) :=
  [("array".toList, .arrayWord), ("break".toList, .breakWord), ("do".toList, .doWord),
    ("else".toList, .elseWord), ("end".toList, .endWord), ("for".toList, .forWord),
    ("function".toList, .functionWord), ("if".toList, .ifWord), ("in".toList, .inWord),
    ("let".toList, .letWord), ("nil".toList, .nilWord), ("of".toList, .ofWord),
    ("then".toList, .thenWord), ("to".toList, .toWord), ("type".toList, .typeWord),
    ("var".toList, .varWord), ("while".toList, .whileWord)]

def wordKind (text : List Char) : TokenKind := (reservedWords.lookup text).getD .identifier

/-- A mark stands before every mark that it starts with. -/
def marks : List (List Char × TokenKind) :=
  [(['['], .openBracket), ([']'], .closeBracket), (['\x7b'], .openCurly), (['\x7d'], .closeCurly),
    (['('], .openParen), ([')'], .closeParen), ([':', '='], .assignment), (['<', '>'], .notEquals),
    (['<', '='], .lessEquals), (['>', '='], .greaterEquals), (['<'], .less), (['>'], .greater),
    (['='], .equals), (['|'], .or), (['&'], .and), (['.'], .dot), ([';'], .semicolon),
    ([':'], .colon), ([','], .comma), (['+'], .plus), (['-'], .dash), (['/'], .slash),
    (['*'], .star)]

def isWordRest (c : Char) : Bool := c.isAlphanum || c == '_'

def gap (text rest : List Char) : Lexeme := ⟨none, text, rest⟩

def plain (kind : TokenKind) (text rest : List Char) : Lexeme :=
  ⟨some (kind, String.ofList text), text, rest⟩

def read (c : Char) (cs : List Char) : Except Cause Lexeme :=
  if Text.isBlank c then .ok (gap (c :: cs.takeWhile Text.isBlank) (cs.dropWhile Text.isBlank))
  else if c = '/' ∧ cs.head? = some '*' then
    match Comment.length '/' '*' (c :: cs) with
    | some n => .ok (gap ((c :: cs).take n) ((c :: cs).drop n))
    | none => .error .unterminatedComment
  else if c.isAlpha then
    let text := c :: cs.takeWhile isWordRest
    .ok (plain (wordKind text) text (cs.dropWhile isWordRest))
  else if c.isDigit then
    .ok (plain .number (c :: cs.takeWhile Char.isDigit) (cs.dropWhile Char.isDigit))
  else if c = '"' then
    match Literal.body cs with
    | none => .error (.unrecognised (String.singleton c))
    | some (inner, rest) => (Literal.decode inner).map fun value =>
        ⟨some (.string, String.ofList value), c :: inner ++ ['"'], rest⟩
  else
    match marks.find? fun (mark, _) => mark.isPrefixOf (c :: cs) with
    | some (mark, kind) => .ok (plain kind mark ((c :: cs).drop mark.length))
    | none => .error (.unrecognised (String.singleton c))

theorem marks_ne_nil {mark : List Char} {kind : TokenKind} (h : (mark, kind) ∈ marks) :
    mark ≠ [] := by
  have : ∀ entry ∈ marks, entry.1 ≠ [] := by decide
  exact this _ h

theorem text_append_rest {c : Char} {cs : List Char} {l : Lexeme} (h : read c cs = .ok l) :
    l.text ++ l.rest = c :: cs := by
  unfold read at h
  split at h
  · cases h; simp [gap]
  split at h
  · split at h <;> cases h; simp [gap]
  split at h
  · cases h; simp [plain]
  split at h
  · cases h; simp [plain]
  split at h
  · split at h
    · cases h
    · next inner rest hb =>
      have := Literal.append_of_body hb
      cases hd : Literal.decode inner <;> rw [hd] at h <;> cases h
      simp [this]
  · split at h
    · next mark kind hf =>
      have hp := List.find?_some hf
      cases h
      exact List.prefix_iff_eq_append.1 (List.isPrefixOf_iff_prefix.1 hp)
    · cases h

theorem text_ne_nil {c : Char} {cs : List Char} {l : Lexeme} (h : read c cs = .ok l) :
    l.text ≠ [] := by
  unfold read at h
  split at h
  · cases h; simp [gap]
  split at h
  · split at h <;> cases h
    next n hn =>
    have := Comment.lt_of_lengthFrom hn
    simp [gap]; omega
  split at h
  · cases h; simp [plain]
  split at h
  · cases h; simp [plain]
  split at h
  · split at h
    · cases h
    · next inner rest hb =>
      cases hd : Literal.decode inner <;> rw [hd] at h <;> cases h
      simp
  · split at h
    · next mark kind hf =>
      cases h
      exact marks_ne_nil (List.mem_of_find?_eq_some hf)
    · cases h

theorem rest_length_lt {c : Char} {cs : List Char} {l : Lexeme} (h : read c cs = .ok l) :
    l.rest.length < (c :: cs).length := by
  have hpos := List.length_pos_iff.2 (text_ne_nil h)
  rw [← text_append_rest h, List.length_append]
  omega

end Lexeme

end TigerLang
