import TigerLang.Proofs.Partition

/-! Texts that are scanned one after the other. A lexeme takes note of nothing that follows it but
the first character, and white space goes on with no lexeme except white space. -/

namespace TigerLang

namespace Comment

theorem length_append {text : List Char} (h : IsComment text) (more : List Char) :
    length '/' '*' (text ++ more) = some text.length :=
  length_of_isNested (by decide) ((isComment_iff_isNested more).mp h)

end Comment

namespace Lexeme

/-- A character that goes on with no word, number or mark, and makes no comment of a slash. -/
structure Separates (d : Char) : Prop where
  word : isWordRest d = false
  mark : d ∉ ['*', '=', '>']

theorem Separates.digit {d : Char} (h : Separates d) : d.isDigit = false := by
  have hword := h.word
  simp only [isWordRest, Char.isAlphanum, Bool.or_eq_false_iff] at hword
  exact hword.1.2

theorem separates_quote : Separates '"' := ⟨by decide, by decide⟩

theorem isWordRest_of_isBlank {d : Char} (h : Text.isBlank d = true) : isWordRest d = false := by
  rw [Bool.eq_false_iff]
  intro hword
  have hcode : 48 ≤ d.toNat ∧ d.toNat ≤ 122 := by
    rcases Bool.or_eq_true_iff.mp hword with halnum | hunderscore
    · rcases Bool.or_eq_true_iff.mp halnum with halpha | hdigit
      · rcases Bool.or_eq_true_iff.mp halpha with hupper | hlower
        · have hbounds : 65 ≤ d.toNat ∧ d.toNat ≤ 90 := of_decide_eq_true hupper
          omega
        · obtain ⟨hlo, hhi⟩ := Bool.and_eq_true_iff.mp hlower
          have hlo : 97 ≤ d.toNat := of_decide_eq_true hlo
          exact ⟨by omega, of_decide_eq_true hhi⟩
      · obtain ⟨hlo, hhi⟩ := Bool.and_eq_true_iff.mp hdigit
        have hhi : d.toNat ≤ 57 := of_decide_eq_true hhi
        exact ⟨of_decide_eq_true hlo, by omega⟩
    · rw [beq_iff_eq.mp hunderscore]
      decide
  simp only [Text.isBlank, Bool.or_eq_true, Bool.and_eq_true, decide_eq_true_eq, beq_iff_eq] at h
  omega

theorem separates_of_isBlank {d : Char} (h : Text.isBlank d = true) : Separates d := by
  refine ⟨isWordRest_of_isBlank h, fun hmark => ?_⟩
  have hall : (['*', '=', '>'].all fun c => !Text.isBlank c) = true := by decide
  have hd := List.all_eq_true.mp hall d hmark
  rw [h] at hd
  cases hd

@[elab_as_elim]
theorem induction {P : List Char → Prop} (nil : P [])
    (error : ∀ c cs cause, read c cs = .error cause → P (c :: cs))
    (read : ∀ c cs l, read c cs = .ok l → P l.rest → P (c :: cs)) (text : List Char) : P text := by
  induction hlength : text.length using Nat.strongRecOn generalizing text with
  | _ m ih =>
    cases text with
    | nil => exact nil
    | cons c cs =>
      cases hread : Lexeme.read c cs with
      | error cause => exact error c cs cause hread
      | ok l => exact read c cs l hread (ih _ (hlength ▸ rest_length_lt hread) _ rfl)

section forms
variable {c : Char} {cs rest : List Char}

theorem takeWhile_run {p : Char → Bool} (hcs : cs.all p = true)
    (hrest : ∀ d ∈ rest.head?, p d = false) :
    (cs ++ rest).takeWhile p = cs ∧ (cs ++ rest).dropWhile p = rest := by
  rw [List.takeWhile_append_of_pos (List.all_eq_true.mp hcs),
    List.dropWhile_append_of_pos (List.all_eq_true.mp hcs)]
  cases rest with
  | nil => exact ⟨List.append_nil cs, rfl⟩
  | cons d rest =>
    have hd : ¬ p d = true := Bool.eq_false_iff.mp (hrest d rfl)
    rw [List.takeWhile_cons_of_neg hd, List.dropWhile_cons_of_neg hd, List.append_nil]
    exact ⟨rfl, rfl⟩

theorem read_blank (hc : Text.isBlank c = true) (hcs : cs.all Text.isBlank = true)
    (hrest : ∀ d ∈ rest.head?, Text.isBlank d = false) :
    read c (cs ++ rest) = .ok (gap (c :: cs) rest) := by
  obtain ⟨htake, hdrop⟩ := takeWhile_run hcs hrest
  rw [read, if_pos hc, htake, hdrop]

theorem read_comment {text : List Char} (h : Comment.IsComment text) (htext : text ++ rest = c :: cs) :
    read c cs = .ok (gap text rest) := by
  have hlength := Comment.length_append h rest
  obtain ⟨tail, rfl, -⟩ := h
  obtain ⟨rfl, rfl⟩ := List.cons.inj htext
  rw [read, if_neg (by decide), if_pos ⟨rfl, rfl⟩, ← htext, hlength]
  simp only [List.take_left, List.drop_left]

theorem NoGap.of_word (h : isWordRest c = true) : NoGap c cs := by
  refine ⟨?_, ?_⟩
  · rw [Bool.eq_false_iff]
    intro hblank
    rw [isWordRest_of_isBlank hblank] at h
    cases h
  · rintro ⟨rfl, -⟩
    exact absurd h (by decide)

theorem read_word (h : isWord (c :: cs) = true) (hrest : ∀ d ∈ rest.head?, isWordRest d = false) :
    read c (cs ++ rest) = .ok (plain (wordKind (c :: cs)) (c :: cs) rest) := by
  obtain ⟨halpha, hcs⟩ := Bool.and_eq_true_iff.mp h
  obtain ⟨htake, hdrop⟩ := takeWhile_run hcs hrest
  have hgap : NoGap c (cs ++ rest) := .of_word (by simp [isWordRest, Char.isAlphanum, halpha])
  rw [read, if_neg (Bool.eq_false_iff.mp hgap.blank), if_neg hgap.comment, if_pos halpha]
  simp only [htake, hdrop]

theorem read_number (h : isNumber (c :: cs) = true) (hrest : ∀ d ∈ rest.head?, d.isDigit = false) :
    read c (cs ++ rest) = .ok (plain .number (c :: cs) rest) := by
  obtain ⟨hdigit, hcs⟩ := Bool.and_eq_true_iff.mp h
  obtain ⟨htake, hdrop⟩ := takeWhile_run hcs hrest
  have hgap : NoGap c (cs ++ rest) := .of_word (by simp [isWordRest, Char.isAlphanum, hdigit])
  have halpha : ¬ c.isAlpha = true := by
    intro halpha
    rw [isDigit_of_isAlpha halpha] at hdigit
    cases hdigit
  rw [read, if_neg (Bool.eq_false_iff.mp hgap.blank), if_neg hgap.comment, if_neg halpha,
    if_pos hdigit, htake, hdrop]

theorem read_literal {inner : List Char} (h : Literal.Inner inner) (rest : List Char) :
    read '"' (inner ++ '"' :: rest) = (Literal.decode inner).map fun value =>
      ⟨some (.string, String.ofList value), '"' :: inner ++ ['"'], rest⟩ := by
  rw [read, if_neg (by decide), if_neg (by simp), if_neg (by decide), if_neg (by decide), if_pos rfl,
    Literal.body_append h]

theorem marks_form {mark : List Char} {kind : TokenKind} (h : (mark, kind) ∈ marks) :
    (∃ a, mark = [a]) ∨ ∃ a b, mark = [a, b] ∧ b ∈ ['*', '=', '>'] := by
  have hall : ∀ entry ∈ marks, entry.1.length = 1 ∨
      entry.1.length = 2 ∧ (entry.1.tail.all fun b => b ∈ ['*', '=', '>']) = true := by decide
  rcases hall _ h with hone | ⟨htwo, htail⟩
  · exact .inl (List.length_eq_one_iff.mp hone)
  · obtain ⟨a, b, rfl⟩ := List.length_eq_two.mp htwo
    exact .inr ⟨a, b, rfl, of_decide_eq_true (List.all_eq_true.mp htail b List.mem_cons_self)⟩

theorem read_mark {mark : List Char} {kind : TokenKind} (htext : mark ++ rest = c :: cs)
    (hgap : NoGap c cs)
    (hfind : (marks.find? fun (other, _) => other.isPrefixOf (c :: cs)) = some (mark, kind)) :
    read c cs = .ok (plain kind mark rest) := by
  have hmark := List.mem_of_find?_eq_some hfind
  obtain ⟨d, ds, rfl⟩ := List.exists_cons_of_ne_nil (marks_ne_nil hmark)
  obtain ⟨rfl, rfl⟩ := List.cons.inj htext
  obtain ⟨-, halpha, hdigit, hquote⟩ := marks_head hmark
  rw [read, if_neg (Bool.eq_false_iff.mp hgap.blank), if_neg hgap.comment,
    if_neg (Bool.eq_false_iff.mp halpha), if_neg (Bool.eq_false_iff.mp hdigit), if_neg hquote, hfind,
    ← htext]
  simp only [List.drop_left]

end forms

section reading
variable {c : Char} {cs cs' rest : List Char} {l : Lexeme}

/-- What comes next in `rest` does not go on with the lexeme, be it that the same character comes
next as when the lexeme was read, or that this character separates. -/
def Unextended (l : Lexeme) (rest : List Char) : Prop :=
  rest.head? = l.rest.head? ∨ ∀ d ∈ rest.head?, Separates d ∧
    (l.text.all Text.isBlank = true → Text.isBlank d = false)

theorem Unextended.run {p : Char → Bool} (h : l.Unextended rest) (hl : l.rest = cs.dropWhile p)
    (hseparates : ∀ d, Separates d → (l.text.all Text.isBlank = true → Text.isBlank d = false) →
      p d = false) : ∀ d ∈ rest.head?, p d = false := by
  rcases h with hsame | hother
  · intro d hd
    have hnot := List.head?_dropWhile_not p cs
    rw [← hl, ← hsame, hd] at hnot
    exact hnot
  · exact fun d hd => hseparates d (hother d hd).1 (hother d hd).2

theorem Unextended.mark {mark mark' : List Char} {kind kind' : TokenKind} (h : l.Unextended rest)
    (hmark : (mark, kind) ∈ marks) (hmark' : (mark', kind') ∈ marks)
    (hfront : mark' <+: mark ++ rest) : mark' <+: mark ++ l.rest := by
  rcases marks_form hmark' with ⟨a, rfl⟩ | ⟨a, b, rfl, hb⟩
  · obtain ⟨d, ds, rfl⟩ := List.exists_cons_of_ne_nil (marks_ne_nil hmark)
    rw [List.cons_append, List.cons_prefix_cons] at hfront ⊢
    exact ⟨hfront.1, List.nil_prefix⟩
  · rcases marks_form hmark with ⟨d, rfl⟩ | ⟨d, e, rfl, -⟩
    · obtain ⟨rfl, after, rfl⟩ := List.cons_prefix_cons.mp hfront
      rcases h with hsame | hother
      · obtain ⟨tail, htail⟩ := List.head?_eq_some_iff.mp hsame.symm
        rw [htail]
        exact List.cons_prefix_cons.mpr ⟨rfl, List.cons_prefix_cons.mpr ⟨rfl, List.nil_prefix⟩⟩
      · exact absurd hb (hother b rfl).1.mark
    · simp only [List.cons_append, List.nil_append, List.cons_prefix_cons] at hfront ⊢
      exact ⟨hfront.1, hfront.2.1, List.nil_prefix⟩

theorem Unextended.find? {text mark : List Char} {kind : TokenKind} (h : l.Unextended rest)
    (htext : mark ++ l.rest = text)
    (hfind : (marks.find? fun (other, _) => other.isPrefixOf text) = some (mark, kind)) :
    (marks.find? fun (other, _) => other.isPrefixOf (mark ++ rest)) = some (mark, kind) := by
  obtain ⟨-, before, after, hmarks, hbefore⟩ := List.find?_eq_some_iff_append.mp hfind
  refine List.find?_eq_some_iff_append.mpr ⟨?_, before, after, hmarks, ?_⟩
  · exact List.isPrefixOf_iff_prefix.mpr (List.prefix_append mark rest)
  · rintro ⟨mark', kind'⟩ hmem
    have hmark' : (mark', kind') ∈ marks := hmarks ▸ List.mem_append_left _ hmem
    have hnot : (!mark'.isPrefixOf text) = true := hbefore _ hmem
    rw [Bool.not_eq_true'] at hnot ⊢
    rw [Bool.eq_false_iff, ne_eq, List.isPrefixOf_iff_prefix] at hnot ⊢
    intro hfront
    exact hnot (htext ▸ h.mark (List.mem_of_find?_eq_some hfind) hmark' hfront)

theorem Unextended.noGap (h : l.Unextended rest) (hgap : NoGap c cs)
    (hread : l.text ++ l.rest = c :: cs) (hread' : l.text ++ rest = c :: cs') (hne : l.text ≠ []) :
    NoGap c cs' := by
  refine ⟨hgap.blank, ?_⟩
  rintro ⟨rfl, hstar⟩
  obtain ⟨d, tail, htext⟩ := List.exists_cons_of_ne_nil hne
  rw [htext, List.cons_append] at hread hread'
  obtain ⟨rfl, rfl⟩ := List.cons.inj hread
  obtain ⟨-, rfl⟩ := List.cons.inj hread'
  cases tail with
  | cons e tail => exact hgap.comment ⟨rfl, hstar⟩
  | nil =>
    rcases h with hsame | hother
    · exact hgap.comment ⟨rfl, hsame ▸ hstar⟩
    · exact (hother '*' hstar).1.mark (by decide)

/-- Of what comes after a lexeme, only the first character matters to it. -/
theorem read_unextended (hread : read c cs = .ok l) (hcs' : l.text ++ rest = c :: cs')
    (h : l.Unextended rest) : read c cs' = .ok ⟨l.token, l.text, rest⟩ := by
  have htext := text_append_rest hread
  have hne := text_ne_nil hread
  unfold read at hread
  split at hread
  · next hblank =>
    cases hread
    have hrest := h.run rfl fun d _ hd => hd (by simp [gap, hblank])
    obtain rfl : cs.takeWhile Text.isBlank ++ rest = cs' := (List.cons.inj hcs').2
    exact read_blank hblank List.all_takeWhile hrest
  next hblank =>
  split at hread
  · next hcomment =>
    obtain ⟨rfl, hstar⟩ := hcomment
    obtain ⟨after, rfl⟩ : ∃ after, cs = '*' :: after := List.head?_eq_some_iff.mp hstar
    split at hread
    · next n hlength =>
      cases hread
      exact read_comment (Comment.isComment_of_length hlength) hcs'
    · cases hread
  next hcomment =>
  split at hread
  · next halpha =>
    cases hread
    have hrest := h.run rfl fun d hd _ => hd.word
    obtain rfl : cs.takeWhile isWordRest ++ rest = cs' := (List.cons.inj hcs').2
    exact read_word (isWord_takeWhile halpha cs) hrest
  next halpha =>
  split at hread
  · next hdigit =>
    cases hread
    have hrest := h.run rfl fun d hd _ => hd.digit
    obtain rfl : cs.takeWhile Char.isDigit ++ rest = cs' := (List.cons.inj hcs').2
    exact read_number (isNumber_takeWhile hdigit cs) hrest
  next hdigit =>
  split at hread
  · next hquote =>
    split at hread
    · cases hread
    · next inner after hbody =>
      cases hvalue : Literal.decode inner with
      | error cause =>
        rw [hvalue] at hread
        cases hread
      | ok value =>
        rw [hvalue] at hread
        cases hread
        subst hquote
        have hliteral := read_literal (Literal.inner_of_body hbody) rest
        obtain rfl : inner ++ ['"'] ++ rest = cs' := (List.cons.inj hcs').2
        rw [List.append_assoc]
        exact hliteral.trans (by rw [hvalue]; rfl)
  · split at hread
    · next mark kind hfind =>
      cases hread
      have hgap := h.noGap ⟨Bool.eq_false_iff.mpr hblank, hcomment⟩ htext hcs' hne
      exact read_mark hcs' hgap (hcs' ▸ h.find? htext hfind)
    · cases hread

end reading

end Lexeme

def Position.shift (n : Nat) (p : Position) : Position := { p with offset := p.offset + n.toUInt32 }

def Span.shift (n : Nat) (span : Span) : Span := ⟨span.start.shift n, span.stop.shift n⟩

def Diagnostic.shift (n : Nat) (d : Diagnostic) : Diagnostic := { d with position := d.position.shift n }

theorem Position.shift_ofOffset (n : Nat) (file : String) (offset : Nat) :
    (Position.ofOffset file offset).shift n = .ofOffset file (offset + n) := by
  rw [shift, ofOffset, ofOffset]
  exact congrArg (Position.mk · file) (UInt32.ofNat_add offset n).symm

theorem Span.shift_ofWidth (n : Nat) (file : String) (offset width : Nat) :
    (Span.ofWidth file offset width).shift n = .ofWidth file (offset + n) width := by
  rw [shift, ofWidth, ofWidth, Position.shift_ofOffset, Position.shift_ofOffset, Nat.add_right_comm]

theorem Position.toNat_shift {n : Nat} {p : Position} (h : p.offset.toNat + n < 2 ^ 32) :
    (p.shift n).offset.toNat = p.offset.toNat + n := by
  have hn : n.toUInt32.toNat = n := Nat.mod_eq_of_lt (by omega)
  rw [shift, UInt32.toNat_add, hn]
  exact Nat.mod_eq_of_lt h

namespace Token
open Text

def shift (n : Nat) (token : Token) : Token := { token with span := token.span.shift n }

def ofLexeme (file : String) (offset : Nat) (l : Lexeme) : List Token :=
  (l.token.map fun (kind, value) => ⟨kind, value, .ofWidth file offset (width l.text)⟩).toList

section scanning
variable {file : String} {offset : Nat} {c : Char} {cs more : List Char} {l : Lexeme}

theorem scanFrom_nil : scanFrom file offset [] = .ok [atEnd (.ofOffset file offset)] := by
  rw [scanFrom.eq_def]

theorem scanFrom_of_error {cause : Cause} (h : Lexeme.read c cs = .error cause) :
    scanFrom file offset (c :: cs) = .error ⟨cause, .ofOffset file offset⟩ := by
  rw [scanFrom.eq_def]
  dsimp only
  split
  · next cause' hread =>
    rw [h] at hread
    cases hread
    rfl
  · next hread =>
    rw [h] at hread
    cases hread

theorem scanFrom_of_read (h : Lexeme.read c cs = .ok l) :
    scanFrom file offset (c :: cs) =
      (scanFrom file (offset + width l.text) l.rest).map (ofLexeme file offset l ++ ·) := by
  rw [scanFrom.eq_def]
  dsimp only
  split
  · next hread =>
    rw [h] at hread
    cases hread
  · next l' hread =>
    rw [h] at hread
    cases hread
    cases scanFrom file (offset + width l.text) l.rest with
    | error d => rfl
    | ok tokens =>
      rw [ofLexeme]
      cases l.token <;> rfl

theorem ofLexeme_shift (n : Nat) (file : String) (offset : Nat) (l : Lexeme) :
    (ofLexeme file offset l).map (shift n) = ofLexeme file (offset + n) l := by
  rw [ofLexeme, ofLexeme]
  cases l.token with
  | none => rfl
  | some labelled => exact congrArg (fun span => [Token.mk _ _ span]) (Span.shift_ofWidth ..)

theorem scanFrom_shift (n : Nat) (file : String) (offset : Nat) (text : List Char) :
    scanFrom file (offset + n) text =
      ((scanFrom file offset text).map (List.map (shift n))).mapError (Diagnostic.shift n) := by
  induction text using Lexeme.induction generalizing offset with
  | nil =>
    rw [scanFrom_nil, scanFrom_nil, ← Position.shift_ofOffset]
    rfl
  | error c cs cause hread =>
    rw [scanFrom_of_error hread, scanFrom_of_error hread, ← Position.shift_ofOffset]
    rfl
  | read c cs l hread ih =>
    rw [scanFrom_of_read hread, scanFrom_of_read hread, Nat.add_right_comm, ih]
    cases scanFrom file (offset + width l.text) l.rest with
    | error d => rfl
    | ok tokens =>
      simp only [Except.map, Except.mapError, List.map_append, ofLexeme_shift]

theorem scanFrom_dropWhile (file : String) (offset : Nat) (text : List Char) :
    scanFrom file offset text =
      scanFrom file (offset + width (text.takeWhile isBlank)) (text.dropWhile isBlank) := by
  cases text with
  | nil => rfl
  | cons c cs =>
    by_cases hc : isBlank c = true
    · have hread : Lexeme.read c cs =
          .ok (Lexeme.gap (c :: cs.takeWhile isBlank) (cs.dropWhile isBlank)) := by
        rw [Lexeme.read, if_pos hc]
      rw [scanFrom_of_read hread, List.takeWhile_cons_of_pos hc, List.dropWhile_cons_of_pos hc]
      exact congrFun Except.map_id _
    · rw [List.takeWhile_cons_of_neg hc, List.dropWhile_cons_of_neg hc]
      rfl

theorem scanFrom_blank {gap : List Char} (hgap : gap.all isBlank = true) (file : String) (offset : Nat)
    (text : List Char) : scanFrom file offset (gap ++ text) = scanFrom file (offset + width gap) text := by
  rw [scanFrom_dropWhile, scanFrom_dropWhile file (offset + width gap),
    List.takeWhile_append_of_pos (List.all_eq_true.mp hgap),
    List.dropWhile_append_of_pos (List.all_eq_true.mp hgap), width_append, Nat.add_assoc]

theorem scanFrom_append {text : List Char} {tokens : List Token}
    (hmore : ∀ d ∈ more.head?, Lexeme.Separates d) (h : scanFrom file offset text = .ok tokens) :
    ∃ before, tokens = before ++ [atEnd (.ofOffset file (offset + width text))] ∧
      scanFrom file offset (text ++ more) =
        (scanFrom file (offset + width text) more).map (before ++ ·) := by
  induction text using Lexeme.induction generalizing offset tokens with
  | nil =>
    rw [scanFrom_nil] at h
    cases h
    refine ⟨[], rfl, ?_⟩
    rw [width_nil, Nat.add_zero, List.nil_append]
    exact (congrFun Except.map_id _).symm
  | error c cs cause hread =>
    rw [scanFrom_of_error hread] at h
    cases h
  | read c cs l hread ih =>
    have htext := Lexeme.text_append_rest hread
    by_cases hblank : l.rest = [] ∧ l.text.all isBlank = true
    · -- White space at the end is one lexeme with that in front of what comes after.
      obtain ⟨hrest, hall⟩ := hblank
      rw [hrest, List.append_nil] at htext
      rw [← htext] at h ⊢
      have hend := scanFrom_blank hall file offset []
      rw [List.append_nil, h, scanFrom_nil] at hend
      cases hend
      refine ⟨[], rfl, ?_⟩
      rw [scanFrom_blank hall]
      exact (congrFun Except.map_id _).symm
    · rw [scanFrom_of_read hread] at h
      cases hscan : scanFrom file (offset + width l.text) l.rest with
      | error d =>
        rw [hscan] at h
        cases h
      | ok tokens' =>
        rw [hscan] at h
        cases h
        obtain ⟨before, rfl, hmore'⟩ := ih hscan
        have hread' : Lexeme.read c (cs ++ more) = .ok ⟨l.token, l.text, l.rest ++ more⟩ := by
          apply Lexeme.read_unextended hread
          · rw [← List.append_assoc, htext, List.cons_append]
          · cases hrest : l.rest with
            | cons d rest => exact .inl (by rw [hrest]; rfl)
            | nil => exact .inr fun d hd => ⟨hmore d hd, fun hall => absurd ⟨hrest, hall⟩ hblank⟩
        have hwidth : width (c :: cs) = width l.text + width l.rest := by rw [← htext, width_append]
        rw [hwidth, ← Nat.add_assoc]
        refine ⟨ofLexeme file offset l ++ before, (List.append_assoc ..).symm, ?_⟩
        rw [List.cons_append, scanFrom_of_read hread', hmore']
        cases scanFrom file (offset + width l.text + width l.rest) more with
        | error d => rfl
        | ok tokens => exact congrArg Except.ok (List.append_assoc ..).symm

theorem scanFrom_separated {text gap : List Char} {tokens : List Token} (hne : gap ≠ [])
    (hgap : gap.all isBlank = true) (h : scanFrom file 0 text = .ok tokens) :
    ∃ before, tokens = before ++ [atEnd (.ofOffset file (width text))] ∧
      scanFrom file 0 (text ++ gap ++ more) =
        (((scanFrom file 0 more).map (List.map (shift (width (text ++ gap))))).mapError
          (Diagnostic.shift (width (text ++ gap)))).map (before ++ ·) := by
  have hmore : ∀ d ∈ (gap ++ more).head?, Lexeme.Separates d := by
    obtain ⟨c, cs, rfl⟩ := List.exists_cons_of_ne_nil hne
    intro d hd
    obtain rfl : c = d := Option.some.inj hd
    exact Lexeme.separates_of_isBlank (List.all_eq_true.mp hgap c List.mem_cons_self)
  obtain ⟨before, htokens, hscan⟩ := scanFrom_append hmore h
  rw [Nat.zero_add] at htokens
  refine ⟨before, htokens, ?_⟩
  rw [List.append_assoc, hscan, scanFrom_blank hgap, Nat.add_assoc, ← width_append, scanFrom_shift]

/-- A scan that fails has gone over a beginning that can be scanned by itself, and has come to where
no lexeme can be read. -/
theorem scanFrom_stops {text : List Char} {d : Diagnostic} (h : scanFrom file offset text = .error d) :
    ∃ scanned c cs, text = scanned ++ c :: cs ∧ (∃ tokens, scanFrom file offset scanned = .ok tokens) ∧
      Lexeme.read c cs = .error d.cause ∧ d.position = .ofOffset file (offset + width scanned) := by
  induction text using Lexeme.induction generalizing offset with
  | nil =>
    rw [scanFrom_nil] at h
    cases h
  | error c cs cause hread =>
    rw [scanFrom_of_error hread] at h
    cases h
    exact ⟨[], c, cs, rfl, ⟨_, scanFrom_nil⟩, hread, rfl⟩
  | read c cs l hread ih =>
    have htext := Lexeme.text_append_rest hread
    rw [scanFrom_of_read hread] at h
    cases hscan : scanFrom file (offset + width l.text) l.rest with
    | ok tokens =>
      rw [hscan] at h
      cases h
    | error d' =>
      rw [hscan] at h
      cases h
      obtain ⟨scanned, e, es, hrest, ⟨tokens, htokens⟩, hstop, hposition⟩ := ih hscan
      refine ⟨l.text ++ scanned, e, es, ?_, ⟨ofLexeme file offset l ++ tokens, ?_⟩, hstop, ?_⟩
      · rw [List.append_assoc, ← hrest, htext]
      · -- What has been scanned is cut at the end of a lexeme, so it is scanned alike by itself.
        obtain ⟨c', tail, hl⟩ := List.exists_cons_of_ne_nil (Lexeme.text_ne_nil hread)
        obtain rfl : c' = c := by
          rw [hl] at htext
          exact (List.cons.inj htext).1
        have hunextended : l.Unextended scanned := by
          cases scanned with
          | nil => exact .inr (by simp)
          | cons e scanned => exact .inl (by rw [hrest]; rfl)
        have hread' : Lexeme.read c' (tail ++ scanned) = .ok ⟨l.token, l.text, scanned⟩ :=
          Lexeme.read_unextended hread (by rw [hl]; rfl) hunextended
        rw [hl, List.cons_append, scanFrom_of_read hread', htokens]
        rfl
      · rw [hposition, width_append, Nat.add_assoc]

theorem scanFrom_error {file : String} {before text : List Char} {d : Diagnostic}
    (h : scanFrom file (width before) text = .error d) :
    ∃ scanned rest, text = scanned ++ rest ∧ rest ≠ [] ∧
      d.position = .ofOffset file (width (before ++ scanned)) := by
  obtain ⟨scanned, c, cs, htext, -, -, hposition⟩ := scanFrom_stops h
  exact ⟨scanned, c :: cs, htext, List.cons_ne_nil c cs, by rw [hposition, width_append]⟩

end scanning

theorem Partition.stopByte_le {source : List Char} {file : String} {prev : Nat} {tokens : List Token}
    (h : Partition source file prev tokens) {token : Token} (htoken : token ∈ tokens) :
    token.startByte ≤ width source ∧ token.stopByte ≤ width source := by
  obtain ⟨text, ⟨before, after, hsource, hstart, hstop⟩, -⟩ := h.denotes token htoken
  have hwidth := congrArg width hsource
  rw [width_append, width_append] at hwidth
  omega

/-- Scanning two texts with white space between them gives the tokens of the first and then those of
the second, each as far from the start as it has moved. Or it fails where the second does. -/
theorem scan_append {a w b file : String} {tokens : List Token}
    (hsize : (a ++ w ++ b).utf8ByteSize < 2 ^ 32) (hw : w ≠ "")
    (hblank : ∀ c ∈ w.toList, isBlank c = true) (ha : scan a file = .ok tokens) :
    ∃ before, tokens = before ++ [atEnd (.ofOffset file a.utf8ByteSize)] ∧
      (∀ tokens', scan b file = .ok tokens' →
        scan (a ++ w ++ b) file = .ok (before ++ tokens'.map (shift (a ++ w).utf8ByteSize)) ∧
        ∀ token ∈ tokens',
          (token.shift (a ++ w).utf8ByteSize).startByte = token.startByte + (a ++ w).utf8ByteSize ∧
          (token.shift (a ++ w).utf8ByteSize).stopByte = token.stopByte + (a ++ w).utf8ByteSize) ∧
      ∀ d, scan b file = .error d →
        scan (a ++ w ++ b) file = .error (d.shift (a ++ w).utf8ByteSize) ∧
        (d.shift (a ++ w).utf8ByteSize).position.offset.toNat =
          d.position.offset.toNat + (a ++ w).utf8ByteSize := by
  set n := (a ++ w).utf8ByteSize
  have hwidth : width (a.toList ++ w.toList) = n := by rw [← String.toList_append, width_toList]
  have hbound : width b.toList + n < 2 ^ 32 := by
    rw [String.utf8ByteSize_append] at hsize
    rw [width_toList]
    omega
  have hne : w.toList ≠ [] := mt String.toList_eq_nil_iff.mp hw
  obtain ⟨before, htokens, hscan⟩ := scanFrom_separated hne (List.all_eq_true.mpr hblank) ha
  rw [width_toList] at htokens
  have hjoined : scan (a ++ w ++ b) file =
      (((scan b file).map (List.map (shift n))).mapError (Diagnostic.shift n)).map (before ++ ·) := by
    rw [scan, String.toList_append, String.toList_append, hscan, hwidth, scan]
  refine ⟨before, htokens, fun tokens' hb => ⟨?_, fun token htoken => ?_⟩, fun d hb => ⟨?_, ?_⟩⟩
  · rw [hjoined, hb]
    rfl
  · have hpartition := partition_scanFrom (List.nil_append b.toList).symm (by omega) hb
    obtain ⟨hstart, hstop⟩ := hpartition.stopByte_le htoken
    exact ⟨Position.toNat_shift (Nat.lt_of_le_of_lt (Nat.add_le_add_right hstart n) hbound),
      Position.toNat_shift (Nat.lt_of_le_of_lt (Nat.add_le_add_right hstop n) hbound)⟩
  · rw [hjoined, hb]
    rfl
  · have hfrom : scanFrom file (width []) b.toList = .error d := hb
    obtain ⟨scanned, rest, hrest, -, hposition⟩ := scanFrom_error hfrom
    have hle : width scanned ≤ width b.toList := by
      rw [hrest, width_append]
      exact Nat.le_add_right _ _
    apply Position.toNat_shift
    rw [hposition, List.nil_append, offset_toNat (by omega)]
    omega

theorem scan_append_apart : ∃ before tokens',
    scan "x <" "apart.tig" = .ok (before ++ [atEnd (.ofOffset "apart.tig" 3)]) ∧
    scan "= \"é\\n\"" "apart.tig" = .ok tokens' ∧ tokens'.map Token.kind = [.equals, .string, .eof] ∧
    scan "x <\n= \"é\\n\"" "apart.tig" = .ok (before ++ tokens'.map (shift 4)) := by
  have hkinds : (scan "= \"é\\n\"" "apart.tig").toOption.map (List.map Token.kind) =
      some [.equals, .string, .eof] := by decide +kernel
  have hfirst : (scan "x <" "apart.tig").toOption.isSome = true := by decide +kernel
  cases ha : scan "x <" "apart.tig" with
  | error d =>
    rw [ha] at hfirst
    cases hfirst
  | ok tokens =>
    cases hb : scan "= \"é\\n\"" "apart.tig" with
    | error d =>
      rw [hb] at hkinds
      cases hkinds
    | ok tokens' =>
      rw [hb] at hkinds
      obtain ⟨before, rfl, hboth, -⟩ := scan_append (a := "x <") (w := "\n") (b := "= \"é\\n\"")
        (by decide +kernel) (by decide) (List.all_eq_true.mp (by decide +kernel)) ha
      exact ⟨before, tokens', rfl, rfl, Option.some.inj hkinds, (hboth tokens' hb).1⟩

end Token

end TigerLang
