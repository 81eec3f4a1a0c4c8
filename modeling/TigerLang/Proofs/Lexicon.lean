import TigerLang.Proofs.NestedComments
import TigerLang.Token.Lexeme

/-! The forms of lexemes, said apart from how they are read, and that what is read off the front of a
text has such a form and is the longest that does. -/

namespace TigerLang

namespace Comment

inductive Rest : List Char → Prop
  | close : Rest ['*', '/']
  | nested {inner rest : List Char} (hinner : Rest inner) (hrest : Rest rest) :
    Rest ('/' :: '*' :: (inner ++ rest))
  | char {c : Char} {rest : List Char} (hopen : ¬ ['/', '*'] <+: c :: rest)
    (hclose : ¬ ['*', '/'] <+: c :: rest) (hrest : Rest rest) : Rest (c :: rest)

def IsComment (text : List Char) : Prop := ∃ rest, text = '/' :: '*' :: rest ∧ Rest rest

/-- What comes after a comment does not bear on what is inside it. -/
theorem Rest.exists_inside {rest : List Char} (h : Rest rest) (after : List Char) :
    ∃ inner, rest = inner ++ ['*', '/'] ∧ Inside '/' '*' inner ('*' :: '/' :: after) := by
  induction h generalizing after with
  | close => exact ⟨[], rfl, .none⟩
  | nested _ _ ihinner ihrest =>
    obtain ⟨more, rfl, hmore⟩ := ihrest after
    obtain ⟨inner, rfl, hinner⟩ := ihinner (more ++ '*' :: '/' :: after)
    exact ⟨_, by simp, .comment hinner hmore⟩
  | @char c _ hopen hclose _ ih =>
    obtain ⟨inner, rfl, hinner⟩ := ih after
    have hafter : inner ++ '*' :: '/' :: after = inner ++ ['*', '/'] ++ after := by simp
    refine ⟨c :: inner, rfl, .symbol ?_ ?_ hinner⟩
    · rwa [hafter, pair_prefix_append_iff (by simp)]
    · rwa [hafter, pair_prefix_append_iff (by simp)]

theorem rest_of_inside {inner next : List Char} (h : Inside '/' '*' inner next)
    (hnext : ['*', '/'] <+: next) : Rest (inner ++ ['*', '/']) := by
  obtain ⟨after, rfl⟩ := hnext
  generalize hnext : ['*', '/'] ++ after = next at h
  induction h generalizing after with
  | none => exact .close
  | @comment inner more _ _ _ ihinner ihmore =>
    have htext : '/' :: '*' :: (inner ++ '*' :: '/' :: more) ++ ['*', '/'] =
        '/' :: '*' :: ((inner ++ ['*', '/']) ++ (more ++ ['*', '/'])) := by simp
    rw [htext]
    exact .nested (ihinner _ rfl) (ihmore _ hnext)
  | @symbol c more _ hopen hclose _ ih =>
    have hafter : more ++ (['*', '/'] ++ after) = more ++ ['*', '/'] ++ after := by simp
    subst hnext
    rw [hafter, pair_prefix_append_iff (by simp)] at hopen hclose
    exact .char hopen hclose (ih _ rfl)

theorem isComment_iff_isNested {text : List Char} (after : List Char) :
    IsComment text ↔ IsNested '/' '*' text after := by
  constructor
  · rintro ⟨rest, rfl, hrest⟩
    obtain ⟨inner, rfl, hinner⟩ := hrest.exists_inside after
    exact ⟨inner, rfl, hinner⟩
  · rintro ⟨inner, rfl, hinner⟩
    exact ⟨_, rfl, rest_of_inside hinner ⟨after, rfl⟩⟩

theorem isComment_of_length {text : List Char} {n : Nat}
    (h : length '/' '*' ('/' :: '*' :: text) = some n) : IsComment (('/' :: '*' :: text).take n) := by
  have hopen : ['/', '*'] <+: '/' :: '*' :: text := ⟨text, rfl⟩
  obtain ⟨word, after, htext, rfl, hword⟩ := isNested_of_length hopen h
  rw [htext, List.take_left]
  exact (isComment_iff_isNested after).mpr hword

end Comment

inductive Gap : List Char → Prop
  | none : Gap []
  | blank {c : Char} {gap : List Char} (hc : Text.isBlank c) (hgap : Gap gap) : Gap (c :: gap)
  | comment {text gap : List Char} (htext : Comment.IsComment text) (hgap : Gap gap) : Gap (text ++ gap)

theorem Gap.append {gap gap' : List Char} (h : Gap gap) (h' : Gap gap') : Gap (gap ++ gap') := by
  induction h with
  | none => exact h'
  | blank hc _ ih => exact .blank hc ih
  | comment htext _ ih =>
    rw [List.append_assoc]
    exact .comment htext ih

theorem Gap.of_blank {text : List Char} (h : ∀ c ∈ text, Text.isBlank c) : Gap text := by
  induction text with
  | nil => exact .none
  | cons c text ih =>
    rw [List.forall_mem_cons] at h
    exact .blank h.1 (ih h.2)

namespace Literal

/-- What may stand between quotes: no quote without a backslash, and no newline behind one. -/
inductive Inner : List Char → Prop
  | nil : Inner []
  | char {c : Char} {inner : List Char} (hquote : c ≠ '"') (hslash : c ≠ '\\') (hinner : Inner inner) :
    Inner (c :: inner)
  | escaped {c : Char} {inner : List Char} (hc : c ≠ '\n') (hinner : Inner inner) :
    Inner ('\\' :: c :: inner)

inductive Spells : List Char → List Char → Prop
  | nil : Spells [] []
  | char {c : Char} {inner value : List Char} (hquote : c ≠ '"') (hslash : c ≠ '\\')
    (hinner : Spells inner value) : Spells (c :: inner) (c :: value)
  | newline {inner value : List Char} (hinner : Spells inner value) :
    Spells ('\\' :: 'n' :: inner) ('\n' :: value)
  | tab {inner value : List Char} (hinner : Spells inner value) :
    Spells ('\\' :: 't' :: inner) ('\t' :: value)
  | quote {inner value : List Char} (hinner : Spells inner value) :
    Spells ('\\' :: '"' :: inner) ('"' :: value)
  | backslash {inner value : List Char} (hinner : Spells inner value) :
    Spells ('\\' :: '\\' :: inner) ('\\' :: value)
  | code {x y z : Nat} {inner value : List Char} (hx : x < 10) (hy : y < 10) (hz : z < 10)
    (hcode : 100 * x + 10 * y + z ≤ 127) (hinner : Spells inner value) :
    Spells ('\\' :: x.digitChar :: y.digitChar :: z.digitChar :: inner)
      (Char.ofNat (100 * x + 10 * y + z) :: value)

theorem body_escaped {c : Char} (hc : c ≠ '\n') (text : List Char) :
    body ('\\' :: c :: text) = (body text).map fun (inner, after) => ('\\' :: c :: inner, after) := by
  rw [body]
  exact if_neg hc

theorem body_char {c : Char} (hquote : c ≠ '"') (hslash : c ≠ '\\') (text : List Char) :
    body (c :: text) = (body text).map fun (inner, after) => (c :: inner, after) := by
  rw [body]
  · exact hquote
  · rintro rfl
    exact absurd rfl hslash
  · rintro d rest rfl
    exact absurd rfl hslash

theorem inner_of_body {text inner after : List Char} (h : body text = some (inner, after)) :
    Inner inner := by
  fun_induction body text generalizing inner after with
  | case1 => cases h
  | case2 rest =>
    obtain ⟨rfl, -⟩ := Prod.mk.inj (Option.some.inj h)
    exact .nil
  | case3 => cases h
  | case4 => cases h
  | case5 c rest hc ih =>
    obtain ⟨⟨inner, after⟩, hbody, heq⟩ := Option.map_eq_some_iff.mp h
    obtain ⟨rfl, -⟩ := Prod.mk.inj heq
    exact .escaped hc (ih hbody)
  | case6 c rest hquote hlast hslash ih =>
    obtain ⟨⟨inner, after⟩, hbody, heq⟩ := Option.map_eq_some_iff.mp h
    obtain ⟨rfl, -⟩ := Prod.mk.inj heq
    refine .char hquote ?_ (ih hbody)
    rintro rfl
    cases rest with
    | nil => exact hlast rfl rfl
    | cons d rest => exact hslash d rest rfl rfl

theorem body_append {inner : List Char} (h : Inner inner) (after : List Char) :
    body (inner ++ '"' :: after) = some (inner, after) := by
  induction h with
  | nil => rfl
  | char hquote hslash _ ih => rw [List.cons_append, body_char hquote hslash, ih, Option.map_some]
  | escaped hc _ ih =>
    rw [List.cons_append, List.cons_append, body_escaped hc, ih, Option.map_some]

theorem exists_digitChar {c : Char} (h : c.isDigit = true) : ∃ x < 10, c = x.digitChar := by
  have hbounds : 48 ≤ c.toNat ∧ c.toNat ≤ 57 := by
    simp only [Char.isDigit, Bool.and_eq_true, decide_eq_true_eq] at h
    exact ⟨h.1, h.2⟩
  have hchar : ∀ x < 10, Char.ofNat (x + 48) = x.digitChar := by decide
  refine ⟨c.toNat - 48, by omega, ?_⟩
  rw [← hchar _ (by omega), Nat.sub_add_cancel hbounds.1, Char.ofNat_toNat]

theorem charOfCode_eq {x y z : Nat} (hx : x < 10) (hy : y < 10) (hz : z < 10) :
    charOfCode x.digitChar y.digitChar z.digitChar =
      if 100 * x + 10 * y + z ≤ 127 then some (Char.ofNat (100 * x + 10 * y + z)) else none := by
  have hdigit : ∀ n < 10, n.digitChar.toNat - '0'.toNat = n := by decide
  rw [charOfCode, hdigit x hx, hdigit y hy, hdigit z hz]

theorem charOfCode_digitChar {x y z : Nat} {char : Char} (hx : x < 10) (hy : y < 10) (hz : z < 10)
    (h : charOfCode x.digitChar y.digitChar z.digitChar = some char) :
    100 * x + 10 * y + z ≤ 127 ∧ char = Char.ofNat (100 * x + 10 * y + z) := by
  rw [charOfCode_eq hx hy hz] at h
  split at h
  · next hcode => exact ⟨hcode, (Option.some.inj h).symm⟩
  · cases h

theorem Inner.of_digit {c : Char} {inner : List Char} (h : Inner (c :: inner))
    (hc : c.isDigit = true) : Inner inner := by
  cases h with
  | char _ _ hinner => exact hinner
  | escaped _ _ => exact absurd hc (by decide)

theorem spells_of_escape? {a char : Char} (h : escape? a = some char) {inner value : List Char}
    (hinner : Spells inner value) : Spells ('\\' :: a :: inner) (char :: value) := by
  unfold escape? at h
  split at h
  · next ha =>
    cases h
    exact ha ▸ .newline hinner
  split at h
  · next ha =>
    cases h
    exact ha ▸ .tab hinner
  split at h
  · next ha =>
    cases h
    obtain rfl | rfl := ha
    · exact .quote hinner
    · exact .backslash hinner
  · cases h

theorem spells_of_readCode {a char : Char} {rest after : List Char} (ha : a.isDigit = true)
    (hinner : Inner rest) (h : readCode a rest = .ok (char, after)) :
    Inner after ∧ ∃ digits, rest = digits ++ after ∧
      ∀ more value, Spells more value → Spells ('\\' :: a :: (digits ++ more)) (char :: value) := by
  unfold readCode at h
  split at h
  · next b c after' =>
    split at h
    · next hdigits =>
      obtain ⟨hb, hc⟩ := Bool.and_eq_true_iff.mp hdigits
      split at h
      · next char' hcode =>
        cases h
        obtain ⟨x, hx, rfl⟩ := exists_digitChar ha
        obtain ⟨y, hy, rfl⟩ := exists_digitChar hb
        obtain ⟨z, hz, rfl⟩ := exists_digitChar hc
        obtain ⟨hle, rfl⟩ := charOfCode_digitChar hx hy hz hcode
        exact ⟨(hinner.of_digit hb).of_digit hc, [y.digitChar, z.digitChar], rfl,
          fun more value => .code hx hy hz hle⟩
      · cases h
    · cases h
  · cases h

theorem spells_of_readChar {c char : Char} {rest after : List Char} (hinner : Inner (c :: rest))
    (h : readChar c rest = .ok (char, after)) :
    Inner after ∧ ∃ part, c :: rest = part ++ after ∧
      ∀ more value, Spells more value → Spells (part ++ more) (char :: value) := by
  unfold readChar at h
  cases hinner with
  | char hquote hslash hinner =>
    rw [if_neg hslash] at h
    cases h
    exact ⟨hinner, [c], rfl, fun more value => .char hquote hslash⟩
  | @escaped a inner hc hinner =>
    rw [if_pos rfl] at h
    dsimp only at h
    split at h
    · next char' hescape =>
      cases h
      exact ⟨hinner, ['\\', a], rfl, fun more value => spells_of_escape? hescape⟩
    · split at h
      · next ha =>
        obtain ⟨hafter, digits, rfl, hspells⟩ := spells_of_readCode ha hinner h
        exact ⟨hafter, '\\' :: a :: digits, rfl, hspells⟩
      · cases h

theorem spells_of_decode {inner value : List Char} (hinner : Inner inner)
    (h : decode inner = .ok value) : Spells inner value := by
  fun_induction decode inner generalizing value with
  | case1 =>
    cases h
    exact .nil
  | case2 c rest cause hread => cases h
  | case3 c rest char after hread ih =>
    cases hdecode : decode after with
    | error cause =>
      rw [hdecode] at h
      cases h
    | ok value' =>
      rw [hdecode] at h
      cases h
      obtain ⟨hafter, part, htext, hspells⟩ := spells_of_readChar hinner hread
      rw [htext]
      exact hspells after value' (ih hafter hdecode)

end Literal

namespace Lexeme

def isWord : List Char → Bool
  | [] => false
  | c :: cs => c.isAlpha && cs.all isWordRest

def isNumber : List Char → Bool
  | [] => false
  | c :: cs => c.isDigit && cs.all Char.isDigit

def kindOf? (text : List Char) : Option TokenKind :=
  match (reservedWords ++ marks).lookup text with
  | some kind => some kind
  | none =>
    if isWord text then some .identifier
    else if isNumber text then some .number
    else none

inductive IsLexeme : List Char → Prop
  | blank {c : Char} {cs : List Char} (hc : Text.isBlank c) (hcs : ∀ d ∈ cs, Text.isBlank d) :
    IsLexeme (c :: cs)
  | comment {text : List Char} (h : Comment.IsComment text) : IsLexeme text
  | word {text : List Char} (h : isWord text) : IsLexeme text
  | number {text : List Char} (h : isNumber text) : IsLexeme text
  | literal {inner : List Char} (h : Literal.Inner inner) : IsLexeme ('"' :: (inner ++ ['"']))
  | mark {text : List Char} {kind : TokenKind} (h : (text, kind) ∈ marks) : IsLexeme text

/-- No lexeme that the text and the rest start with is longer than the text. -/
def Longest (text rest : List Char) : Prop :=
  ∀ lexeme, IsLexeme lexeme → lexeme <+: text ++ rest → lexeme.length ≤ text.length

structure Denotes (text : List Char) (kind : TokenKind) (value : String) : Prop where
  literal : kind = .string → ∃ inner, text = '"' :: (inner ++ ['"']) ∧
    Literal.Spells inner value.toList
  plain : kind ≠ .string → String.ofList text = value ∧ kindOf? text = some kind

section kinds

theorem lookup_eq_none {α β : Type} [BEq α] [LawfulBEq α] {entries : List (α × β)} {key : α}
    (h : ∀ entry ∈ entries, entry.1 ≠ key) : entries.lookup key = none := by
  rw [List.lookup_eq_none_iff]
  intro entry hentry
  exact bne_iff_ne.mpr (h entry hentry).symm

theorem reservedWords_head {c : Char} {cs : List Char} {kind : TokenKind}
    (h : (c :: cs, kind) ∈ reservedWords) : c.isAlpha := by
  have hall : ∀ entry ∈ reservedWords, entry.1.head?.all Char.isAlpha = true := by decide
  exact hall _ h

theorem marks_head {c : Char} {cs : List Char} {kind : TokenKind} (h : (c :: cs, kind) ∈ marks) :
    Text.isBlank c = false ∧ c.isAlpha = false ∧ c.isDigit = false ∧ c ≠ '"' := by
  have hall : ∀ entry ∈ marks, entry.1.head?.all fun c =>
      !Text.isBlank c && !c.isAlpha && !c.isDigit && c != '"' := by decide
  simpa [and_assoc] using hall _ h

theorem isDigit_of_isAlpha {c : Char} (h : c.isAlpha = true) : c.isDigit = false := by
  simp only [Char.isDigit, Bool.and_eq_false_iff, decide_eq_false_iff_not]
  right
  rcases Bool.or_eq_true_iff.mp h with hupper | hlower
  · have hle : 'A'.val ≤ c.val := (of_decide_eq_true hupper).1
    exact fun hdigit => absurd (UInt32.le_trans hle hdigit) (by decide)
  · have hle : 'a'.val ≤ c.val := of_decide_eq_true (Bool.and_eq_true_iff.mp hlower).1
    exact fun hdigit => absurd (UInt32.le_trans hle hdigit) (by decide)

theorem kindOf?_word {c : Char} {cs : List Char} (h : isWord (c :: cs) = true) :
    kindOf? (c :: cs) = some (wordKind (c :: cs)) := by
  have hmarks : marks.lookup (c :: cs) = none := by
    apply lookup_eq_none
    rintro ⟨mark, kind⟩ hmem rfl
    have hc := (marks_head hmem).2.1
    rw [isWord, hc] at h
    cases h
  rw [kindOf?, List.lookup_append, hmarks, Option.or_none, wordKind]
  cases reservedWords.lookup (c :: cs) with
  | none => exact if_pos h
  | some kind => rfl

theorem kindOf?_number {c : Char} {cs : List Char} (h : isNumber (c :: cs) = true) :
    kindOf? (c :: cs) = some .number := by
  have hc : c.isDigit = true := (Bool.and_eq_true_iff.mp h).1
  have halpha : c.isAlpha = false := by
    cases halpha : c.isAlpha with
    | false => rfl
    | true => rw [isDigit_of_isAlpha halpha] at hc; cases hc
  have hlookup : (reservedWords ++ marks).lookup (c :: cs) = none := by
    apply lookup_eq_none
    rintro ⟨text, kind⟩ hmem rfl
    rcases List.mem_append.mp hmem with hmem | hmem
    · rw [reservedWords_head hmem] at halpha
      cases halpha
    · rw [(marks_head hmem).2.2.1] at hc
      cases hc
  have hword : isWord (c :: cs) = false := by rw [isWord, halpha, Bool.false_and]
  rw [kindOf?, hlookup]
  dsimp only
  rw [hword, if_neg Bool.false_ne_true, if_pos h]

theorem kindOf?_mark {mark : List Char} {kind : TokenKind} (h : (mark, kind) ∈ marks) :
    kindOf? mark = some kind := by
  have hall : ∀ entry ∈ marks, kindOf? entry.1 = some entry.2 := by decide
  exact hall _ h

theorem kindOf?_ne {text : List Char} {kind : TokenKind} (h : kindOf? text = some kind) :
    kind ≠ .eof ∧ kind ≠ .string := by
  have hall : ∀ entry ∈ reservedWords ++ marks, entry.2 ≠ .eof ∧ entry.2 ≠ .string := by decide
  unfold kindOf? at h
  split at h
  · next kind' hlookup =>
    cases h
    obtain ⟨before, after, hentries, -⟩ := List.lookup_eq_some_iff.mp hlookup
    exact hall (text, kind) (hentries ▸ List.mem_append_right before List.mem_cons_self)
  · split at h
    · cases h
      decide
    · split at h <;> cases h
      decide

theorem Denotes.of_kindOf? {text : List Char} {kind : TokenKind} (h : kindOf? text = some kind) :
    Denotes text kind (String.ofList text) :=
  ⟨fun hstring => absurd hstring (kindOf?_ne h).2, fun _ => ⟨rfl, h⟩⟩

theorem Denotes.ne_eof {text : List Char} {kind : TokenKind} {value : String}
    (h : Denotes text kind value) : kind ≠ .eof := by
  by_cases hstring : kind = .string
  · rw [hstring]
    decide
  · exact (kindOf?_ne (h.plain hstring).2).1

end kinds

section reading
variable {c : Char} {cs : List Char} {l : Lexeme}

structure NoGap (c : Char) (cs : List Char) : Prop where
  blank : Text.isBlank c = false
  comment : ¬ (c = '/' ∧ cs.head? = some '*')

/-- All that can be read off the front of a text. -/
inductive IsRead (c : Char) (cs : List Char) : Lexeme → Prop
  | gap {l : Lexeme} (htoken : l.token = none) (hgap : Gap l.text) : IsRead c cs l
  | word (hgap : NoGap c cs) (halpha : c.isAlpha = true) : IsRead c cs
    (plain (wordKind (c :: cs.takeWhile isWordRest)) (c :: cs.takeWhile isWordRest)
      (cs.dropWhile isWordRest))
  | number (hgap : NoGap c cs) (halpha : c.isAlpha = false) (hdigit : c.isDigit = true) :
    IsRead c cs (plain .number (c :: cs.takeWhile Char.isDigit) (cs.dropWhile Char.isDigit))
  | literal {inner rest value : List Char} (hgap : NoGap c cs) (hquote : c = '"')
    (hbody : Literal.body cs = some (inner, rest)) (hvalue : Literal.decode inner = .ok value) :
    IsRead c cs ⟨some (.string, String.ofList value), c :: inner ++ ['"'], rest⟩
  | mark {mark : List Char} {kind : TokenKind} (hgap : NoGap c cs) (halpha : c.isAlpha = false)
    (hdigit : c.isDigit = false) (hquote : c ≠ '"')
    (hfind : (marks.find? fun (mark, _) => mark.isPrefixOf (c :: cs)) = some (mark, kind)) :
    IsRead c cs (plain kind mark ((c :: cs).drop mark.length))

theorem isRead (h : read c cs = .ok l) : IsRead c cs l := by
  unfold read at h
  split at h
  · next hblank =>
    cases h
    exact .gap rfl (.blank hblank (.of_blank (List.all_eq_true.mp List.all_takeWhile)))
  next hblank =>
  split at h
  · next hcomment =>
    obtain ⟨rfl, hstar⟩ := hcomment
    obtain ⟨rest, rfl⟩ : ∃ rest, cs = '*' :: rest := List.head?_eq_some_iff.mp hstar
    split at h
    · next n hlength =>
      cases h
      refine .gap rfl ?_
      rw [gap, ← List.append_nil (List.take n _)]
      exact .comment (Comment.isComment_of_length hlength) .none
    · cases h
  next hcomment =>
  have hgap : NoGap c cs := ⟨Bool.eq_false_iff.mpr hblank, hcomment⟩
  split at h
  · next halpha =>
    cases h
    exact .word hgap halpha
  next halpha =>
  split at h
  · next hdigit =>
    cases h
    exact .number hgap (Bool.eq_false_iff.mpr halpha) hdigit
  next hdigit =>
  split at h
  · next hquote =>
    split at h
    · cases h
    · next inner rest hbody =>
      cases hvalue : Literal.decode inner with
      | error cause =>
        rw [hvalue] at h
        cases h
      | ok value =>
        rw [hvalue] at h
        cases h
        exact .literal hgap hquote hbody hvalue
  · next hquote =>
    split at h
    · next mark kind hfind =>
      cases h
      exact .mark hgap (Bool.eq_false_iff.mpr halpha) (Bool.eq_false_iff.mpr hdigit) hquote hfind
    · cases h

/-- All for which nothing can be read off the front of a text. -/
inductive IsRefused (c : Char) (cs : List Char) : Cause → Prop
  | comment (hslash : c = '/') (hstar : cs.head? = some '*')
    (hlength : Comment.length '/' '*' (c :: cs) = none) : IsRefused c cs .unterminatedComment
  | literal {inner rest : List Char} {cause : Cause} (hquote : c = '"')
    (hbody : Literal.body cs = some (inner, rest)) (hdecode : Literal.decode inner = .error cause) :
    IsRefused c cs cause
  | quote (hquote : c = '"') (hbody : Literal.body cs = none) :
    IsRefused c cs (.unrecognised (String.singleton c))
  | mark (hgap : NoGap c cs) (halpha : c.isAlpha = false) (hdigit : c.isDigit = false)
    (hquote : c ≠ '"') (hfind : (marks.find? fun (mark, _) => mark.isPrefixOf (c :: cs)) = none) :
    IsRefused c cs (.unrecognised (String.singleton c))

theorem isRefused {cause : Cause} (h : read c cs = .error cause) : IsRefused c cs cause := by
  unfold read at h
  split at h
  · cases h
  next hblank =>
  split at h
  · next hcomment =>
    split at h
    · cases h
    · next hlength =>
      cases h
      exact .comment hcomment.1 hcomment.2 hlength
  next hcomment =>
  split at h
  · cases h
  next halpha =>
  split at h
  · cases h
  next hdigit =>
  split at h
  · next hquote =>
    split at h
    · next hbody =>
      cases h
      exact .quote hquote hbody
    · next inner rest hbody =>
      cases hdecode : Literal.decode inner with
      | ok value =>
        rw [hdecode] at h
        cases h
      | error cause' =>
        rw [hdecode] at h
        cases h
        exact .literal hquote hbody hdecode
  · next hquote =>
    split at h
    · cases h
    · next hfind =>
      cases h
      exact .mark ⟨Bool.eq_false_iff.mpr hblank, hcomment⟩ (Bool.eq_false_iff.mpr halpha)
        (Bool.eq_false_iff.mpr hdigit) hquote hfind

theorem isWord_takeWhile (halpha : c.isAlpha = true) (cs : List Char) :
    isWord (c :: cs.takeWhile isWordRest) = true := by
  rw [isWord, halpha, Bool.true_and]
  exact List.all_takeWhile

theorem isNumber_takeWhile (hdigit : c.isDigit = true) (cs : List Char) :
    isNumber (c :: cs.takeWhile Char.isDigit) = true := by
  rw [isNumber, hdigit, Bool.true_and]
  exact List.all_takeWhile

theorem IsRead.gap_of_none (h : IsRead c cs l) (htoken : l.token = none) : Gap l.text := by
  cases h with
  | gap _ hgap => exact hgap
  | word => cases htoken
  | number => cases htoken
  | literal => cases htoken
  | mark => cases htoken

theorem IsRead.denotes {kind : TokenKind} {value : String} (h : IsRead c cs l)
    (htoken : l.token = some (kind, value)) : Denotes l.text kind value := by
  cases h with
  | gap hnone _ =>
    rw [hnone] at htoken
    cases htoken
  | word _ halpha =>
    cases htoken
    exact .of_kindOf? (kindOf?_word (isWord_takeWhile halpha cs))
  | number _ _ hdigit =>
    cases htoken
    exact .of_kindOf? (kindOf?_number (isNumber_takeWhile hdigit cs))
  | literal _ hquote hbody hvalue =>
    cases htoken
    refine ⟨fun _ => ⟨_, by rw [hquote]; rfl, ?_⟩, fun hne => absurd rfl hne⟩
    rw [String.toList_ofList]
    exact Literal.spells_of_decode (Literal.inner_of_body hbody) hvalue
  | mark _ _ _ _ hfind =>
    cases htoken
    exact .of_kindOf? (kindOf?_mark (List.mem_of_find?_eq_some hfind))

end reading

section longest
variable {c : Char} {cs lexeme : List Char}

theorem length_le_takeWhile {p : Char → Bool} {text : List Char} (h : text.all p = true)
    (hfront : text <+: cs) : text.length ≤ (cs.takeWhile p).length := by
  obtain ⟨rest, rfl⟩ := hfront
  rw [List.takeWhile_append_of_pos (List.all_eq_true.mp h), List.length_append]
  exact Nat.le_add_right _ _

theorem length_le_find {mark mark' : List Char} {kind kind' : TokenKind} {text : List Char}
    (hfind : (marks.find? fun (mark, _) => mark.isPrefixOf text) = some (mark, kind))
    (hmem : (mark', kind') ∈ marks) (hfront : mark' <+: text) : mark'.length ≤ mark.length := by
  have hsorted : marks.Pairwise fun a b => a.1 <+: b.1 → b.1.length ≤ a.1.length := by decide
  obtain ⟨hmark, before, after, hmarks, hbefore⟩ := List.find?_eq_some_iff_append.mp hfind
  rw [hmarks] at hmem hsorted
  have hafter := (List.pairwise_cons.mp (List.pairwise_append.mp hsorted).2.1).1
  rcases List.mem_append.mp hmem with hmem | hmem
  · have hnot : (!mark'.isPrefixOf text) = true := hbefore _ hmem
    rw [List.isPrefixOf_iff_prefix.mpr hfront] at hnot
    cases hnot
  rcases List.mem_cons.mp hmem with heq | hmem
  · exact Nat.le_of_eq (congrArg List.length (Prod.mk.inj heq).1)
  · rcases Nat.le_total mark.length mark'.length with hle | hle
    · exact hafter _ hmem
        (List.prefix_of_prefix_length_le (List.isPrefixOf_iff_prefix.mp hmark) hfront hle)
    · exact hle

theorem IsLexeme.opens (h : IsLexeme lexeme) (hfront : lexeme <+: c :: cs) :
    ¬ NoGap c cs ∨
    c.isAlpha = true ∧ lexeme.length ≤ (c :: cs.takeWhile isWordRest).length ∨
    c.isDigit = true ∧ lexeme.length ≤ (c :: cs.takeWhile Char.isDigit).length ∨
    c = '"' ∧ (∃ inner rest, Literal.body cs = some (inner, rest) ∧
      lexeme = '"' :: (inner ++ ['"'])) ∨
    (c.isAlpha = false ∧ c.isDigit = false ∧ c ≠ '"') ∧ ∃ kind, (lexeme, kind) ∈ marks := by
  cases h with
  | @blank d ds hd hds =>
    obtain ⟨rfl, -⟩ := List.cons_prefix_cons.mp hfront
    exact .inl fun hgap => absurd hd (Bool.eq_false_iff.mp hgap.blank)
  | comment h =>
    obtain ⟨rest, rfl, -⟩ := h
    obtain ⟨rfl, hrest⟩ := List.cons_prefix_cons.mp hfront
    obtain ⟨after, rfl⟩ := hrest
    exact .inl fun hgap => hgap.comment ⟨rfl, rfl⟩
  | word h =>
    cases lexeme with
    | nil => cases h
    | cons d ds =>
      obtain ⟨rfl, hds⟩ := List.cons_prefix_cons.mp hfront
      obtain ⟨halpha, hrest⟩ := Bool.and_eq_true_iff.mp h
      exact .inr (.inl ⟨halpha, Nat.succ_le_succ (length_le_takeWhile hrest hds)⟩)
  | number h =>
    cases lexeme with
    | nil => cases h
    | cons d ds =>
      obtain ⟨rfl, hds⟩ := List.cons_prefix_cons.mp hfront
      obtain ⟨hdigit, hrest⟩ := Bool.and_eq_true_iff.mp h
      exact .inr (.inr (.inl ⟨hdigit, Nat.succ_le_succ (length_le_takeWhile hrest hds)⟩))
  | @literal inner h =>
    obtain ⟨rfl, hrest⟩ := List.cons_prefix_cons.mp hfront
    obtain ⟨after, rfl⟩ := hrest
    refine .inr (.inr (.inr (.inl ⟨rfl, inner, after, ?_, rfl⟩)))
    rw [List.append_assoc]
    exact Literal.body_append h after
  | mark h =>
    obtain ⟨d, ds, rfl⟩ := List.exists_cons_of_ne_nil (marks_ne_nil h)
    obtain ⟨rfl, -⟩ := List.cons_prefix_cons.mp hfront
    exact .inr (.inr (.inr (.inr ⟨(marks_head h).2, _, h⟩)))

theorem IsRead.longest {l : Lexeme} (h : IsRead c cs l) (htext : l.text ++ l.rest = c :: cs)
    (htoken : l.token ≠ none) : Longest l.text l.rest := by
  intro lexeme hlexeme hfront
  rw [htext] at hfront
  have hopens := hlexeme.opens hfront
  cases h with
  | gap hnone _ => exact absurd hnone htoken
  | word hgap halpha =>
    rcases hopens with hno | ⟨-, hle⟩ | ⟨hdigit, -⟩ | ⟨rfl, -⟩ | ⟨⟨hnot, -⟩, -⟩
    · exact absurd hgap hno
    · exact hle
    · rw [isDigit_of_isAlpha halpha] at hdigit
      cases hdigit
    · exact absurd halpha (by decide)
    · rw [hnot] at halpha
      cases halpha
  | number hgap hnot hdigit =>
    rcases hopens with hno | ⟨halpha, -⟩ | ⟨-, hle⟩ | ⟨rfl, -⟩ | ⟨⟨-, hnot', -⟩, -⟩
    · exact absurd hgap hno
    · rw [hnot] at halpha
      cases halpha
    · exact hle
    · exact absurd hdigit (by decide)
    · rw [hnot'] at hdigit
      cases hdigit
  | literal hgap hquote hbody _ =>
    subst hquote
    rcases hopens with hno | ⟨halpha, -⟩ | ⟨hdigit, -⟩ | ⟨-, inner', rest', hbody', rfl⟩ | ⟨⟨-, -, hne⟩, -⟩
    · exact absurd hgap hno
    · exact absurd halpha (by decide)
    · exact absurd hdigit (by decide)
    · rw [hbody] at hbody'
      obtain ⟨rfl, -⟩ := Prod.mk.inj (Option.some.inj hbody')
      exact Nat.le_refl _
    · exact absurd rfl hne
  | mark hgap hnot hnot' hquote hfind =>
    rcases hopens with hno | ⟨halpha, -⟩ | ⟨hdigit, -⟩ | ⟨rfl, -⟩ | ⟨-, kind', hmem⟩
    · exact absurd hgap hno
    · rw [hnot] at halpha
      cases halpha
    · rw [hnot'] at hdigit
      cases hdigit
    · exact absurd rfl hquote
    · exact length_le_find hfind hmem hfront

end longest

end Lexeme

end TigerLang
