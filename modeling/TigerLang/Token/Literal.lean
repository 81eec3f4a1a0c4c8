import TigerLang.Diagnostic.Basic

/-! String literals: where one ends, and which text it stands for. -/

namespace TigerLang.Literal

/-- The text between the quotes and the text after them, given what follows the opening quote. A
backslash takes the next character with it, which may not be a newline. -/
def body : List Char → Option (List Char × List Char)
  | [] => none
  | '"' :: rest => some ([], rest)
  | ['\\'] => none
  | '\\' :: c :: rest =>
    if c = '\n' then none
    else (body rest).map fun (inner, after) => ('\\' :: c :: inner, after)
  | c :: rest => (body rest).map fun (inner, after) => (c :: inner, after)

/-- The character with a code of three digits. Only ASCII has such codes. -/
def charOfCode (a b c : Char) : Option Char :=
  let code := 100 * (a.toNat - '0'.toNat) + 10 * (b.toNat - '0'.toNat) + (c.toNat - '0'.toNat)
  if code ≤ 127 then some (Char.ofNat code) else none

def badCode (digits : List Char) : Cause :=
  .unexpectedBecause (String.ofList ('\\' :: digits)) "character codes are three digits up to 127"

def badEscape (after : List Char) : Cause :=
  .unexpectedBecause (String.ofList ('\\' :: after)) "unknown escape sequence"

def escape? (c : Char) : Option Char :=
  if c = 'n' then some '\n'
  else if c = 't' then some '\t'
  else if c = '"' ∨ c = '\\' then some c
  else none

def readCode (a : Char) : List Char → Except Cause (Char × List Char)
  | b :: c :: rest =>
    if b.isDigit && c.isDigit then
      match charOfCode a b c with
      | some char => .ok (char, rest)
      | none => .error (badCode [a, b, c])
    else .error (badCode (a :: [b].takeWhile Char.isDigit))
  | short => .error (badCode (a :: short.takeWhile Char.isDigit))

def readChar (c : Char) (rest : List Char) : Except Cause (Char × List Char) :=
  if c = '\\' then
    match rest with
    | [] => .error (badEscape [])
    | a :: rest =>
      match escape? a with
      | some char => .ok (char, rest)
      | none => if a.isDigit then readCode a rest else .error (badEscape [a])
  else .ok (c, rest)

theorem length_of_readCode {a char : Char} {rest after : List Char}
    (h : readCode a rest = .ok (char, after)) : after.length ≤ rest.length := by
  unfold readCode at h
  split at h
  · split at h
    · split at h <;> cases h
      simp only [List.length_cons]
      omega
    · cases h
  · cases h

theorem length_of_readChar {c char : Char} {rest after : List Char}
    (h : readChar c rest = .ok (char, after)) : after.length ≤ rest.length := by
  unfold readChar at h
  split at h
  · split at h
    · cases h
    · split at h
      · cases h
        exact Nat.le_succ _
      · split at h
        · exact Nat.le_succ_of_le (length_of_readCode h)
        · cases h
  · cases h
    exact Nat.le_refl _

def decode (text : List Char) : Except Cause (List Char) :=
  match text with
  | [] => .ok []
  | c :: rest =>
    match _h : readChar c rest with
    | .error cause => .error cause
    | .ok (char, after) => (decode after).map (char :: ·)
termination_by text.length
decreasing_by exact Nat.lt_succ_of_le (length_of_readChar _h)

theorem append_of_body {text inner after : List Char} (h : body text = some (inner, after)) :
    text = inner ++ '"' :: after := by
  fun_induction body text generalizing inner after with
  | case1 => cases h
  | case2 rest => simp_all
  | case3 => cases h
  | case4 => simp_all
  | case5 c rest _ ih =>
    obtain ⟨⟨i, a⟩, hb, he⟩ := Option.map_eq_some_iff.1 h
    obtain ⟨rfl, rfl⟩ := Prod.mk.injEq .. ▸ he
    simp [ih hb]
  | case6 c rest _ _ _ ih =>
    obtain ⟨⟨i, a⟩, hb, he⟩ := Option.map_eq_some_iff.1 h
    obtain ⟨rfl, rfl⟩ := Prod.mk.injEq .. ▸ he
    simp [ih hb]

end TigerLang.Literal
