import TigerLang.Proofs.Separation

/-! String literals, from the text between the quotes to the token. What the end of a literal is
found by and what decodes it agree: every text that spells something is decoded to it, and all others
between quotes are refused. -/

namespace TigerLang

namespace Literal

def enclosed (inner : List Char) : List Char := '"' :: (inner ++ ['"'])

section decoding
variable {c char : Char} {rest after inner value : List Char}

theorem decode_of_readChar (h : readChar c rest = .ok (char, after)) :
    decode (c :: rest) = (decode after).map (char :: ·) := by
  rw [decode]
  split
  · next cause hread =>
    rw [h] at hread
    cases hread
  · next char' after' hread =>
    rw [h] at hread
    cases hread
    rfl

theorem readChar_plain (h : c ≠ '\\') (rest : List Char) : readChar c rest = .ok (c, rest) := by
  rw [readChar.eq_def, if_neg h]

theorem readChar_escape (h : escape? c = some char) (rest : List Char) :
    readChar '\\' (c :: rest) = .ok (char, rest) := by
  rw [readChar, if_pos rfl, h]

theorem readChar_code {x y z : Nat} (hx : x < 10) (hy : y < 10) (hz : z < 10)
    (hcode : 100 * x + 10 * y + z ≤ 127) (rest : List Char) :
    readChar '\\' (x.digitChar :: y.digitChar :: z.digitChar :: rest) =
      .ok (Char.ofNat (100 * x + 10 * y + z), rest) := by
  have hdigit : ∀ n < 10, n.digitChar.isDigit = true ∧ escape? n.digitChar = none := by decide
  rw [readChar, if_pos rfl, (hdigit x hx).2]
  dsimp only
  rw [if_pos (hdigit x hx).1, readCode, (hdigit y hy).1, (hdigit z hz).1, charOfCode_eq hx hy hz,
    if_pos hcode]
  rfl

theorem decode_of_spells (h : Spells inner value) : decode inner = .ok value := by
  induction h with
  | nil => rw [decode]
  | char _ hslash _ ih => rw [decode_of_readChar (readChar_plain hslash _), ih]; rfl
  | newline _ ih => rw [decode_of_readChar (readChar_escape rfl _), ih]; rfl
  | tab _ ih => rw [decode_of_readChar (readChar_escape rfl _), ih]; rfl
  | quote _ ih => rw [decode_of_readChar (readChar_escape rfl _), ih]; rfl
  | backslash _ ih => rw [decode_of_readChar (readChar_escape rfl _), ih]; rfl
  | code hx hy hz hcode _ ih => rw [decode_of_readChar (readChar_code hx hy hz hcode _), ih]; rfl

theorem inner_of_spells (h : Spells inner value) : Inner inner := by
  have hplain : ∀ n < 10, n.digitChar ≠ '"' ∧ n.digitChar ≠ '\\' ∧ n.digitChar ≠ '\n' := by decide
  induction h with
  | nil => exact .nil
  | char hquote hslash _ ih => exact .char hquote hslash ih
  | newline _ ih => exact .escaped (by decide) ih
  | tab _ ih => exact .escaped (by decide) ih
  | quote _ ih => exact .escaped (by decide) ih
  | backslash _ ih => exact .escaped (by decide) ih
  | code hx hy hz _ _ ih =>
    exact .escaped (hplain _ hx).2.2 (.char (hplain _ hy).1 (hplain _ hy).2.1
      (.char (hplain _ hz).1 (hplain _ hz).2.1 ih))

end decoding

/-- A backslash and what it takes with it are no escape where `after` comes next, for the reason that
the message gives. -/
inductive BadEscape : List Char → List Char → String → Prop
  | unknown {c : Char} {after : List Char} (hletter : c ∉ ['n', 't', '"', '\\'])
    (hdigit : c.isDigit = false) : BadEscape ['\\', c] after "unknown escape sequence"
  | short {digits after : List Char} (hne : digits ≠ []) (hshort : digits.length < 3)
    (hdigits : digits.all Char.isDigit = true) (hafter : ∀ d ∈ after.head?, d.isDigit = false) :
    BadEscape ('\\' :: digits) after "character codes are three digits up to 127"
  | large {x y z : Nat} {after : List Char} (hx : x < 10) (hy : y < 10) (hz : z < 10)
    (hcode : 127 < 100 * x + 10 * y + z) :
    BadEscape ['\\', x.digitChar, y.digitChar, z.digitChar] after
      "character codes are three digits up to 127"

theorem notMem_of_escape? {c : Char} (h : escape? c = none) : c ∉ ['n', 't', '"', '\\'] := by
  intro hmem
  simp only [List.mem_cons, List.not_mem_nil, or_false] at hmem
  rcases hmem with rfl | rfl | rfl | rfl <;> cases h

section refusing
variable {c : Char} {rest inner : List Char} {cause : Cause}

theorem badEscape_of_digits (hc : c.isDigit = true) (h : (rest.takeWhile Char.isDigit).length < 2) :
    BadEscape ('\\' :: c :: rest.takeWhile Char.isDigit) (rest.dropWhile Char.isDigit)
      "character codes are three digits up to 127" := by
  refine .short (List.cons_ne_nil _ _) (Nat.succ_lt_succ h) ?_ fun d hd => ?_
  · rw [List.all_cons, hc, List.all_takeWhile]
    rfl
  · have hnot := List.head?_dropWhile_not Char.isDigit rest
    rw [hd] at hnot
    exact hnot

theorem badEscape_of_readCode (hc : c.isDigit = true) (h : readCode c rest = .error cause) :
    ∃ digits after message, rest = digits ++ after ∧ BadEscape ('\\' :: c :: digits) after message ∧
      cause = .unexpectedBecause (String.ofList ('\\' :: c :: digits)) message := by
  unfold readCode at h
  split at h
  · next b d rest =>
    split at h
    · next hdigits =>
      obtain ⟨hb, hd⟩ := Bool.and_eq_true_iff.mp hdigits
      split at h
      · cases h
      · next hcode =>
        cases h
        obtain ⟨x, hx, rfl⟩ := exists_digitChar hc
        obtain ⟨y, hy, rfl⟩ := exists_digitChar hb
        obtain ⟨z, hz, rfl⟩ := exists_digitChar hd
        rw [charOfCode_eq hx hy hz] at hcode
        split at hcode
        · cases hcode
        · next hle =>
          exact ⟨[y.digitChar, z.digitChar], rest, _, rfl, .large hx hy hz (Nat.not_le.mp hle), rfl⟩
    · next hdigits =>
      cases h
      have hrun : [b].takeWhile Char.isDigit = (b :: d :: rest).takeWhile Char.isDigit := by
        cases hb : b.isDigit with
        | false => simp [hb]
        | true =>
          rw [hb, Bool.true_and] at hdigits
          simp [hb, hdigits]
      have hshort : ((b :: d :: rest).takeWhile Char.isDigit).length < 2 := by
        rw [← hrun]
        exact Nat.lt_succ_of_le (List.takeWhile_sublist _).length_le
      rw [hrun]
      exact ⟨_, _, _, List.takeWhile_append_dropWhile.symm, badEscape_of_digits hc hshort, rfl⟩
  · next hshort =>
    cases h
    have hlength : rest.length < 2 := by
      rcases rest with _ | ⟨b, _ | ⟨d, rest⟩⟩
      · exact Nat.two_pos
      · exact Nat.one_lt_two
      · exact absurd rfl (hshort b d rest)
    have hrun := Nat.lt_of_le_of_lt (List.takeWhile_sublist Char.isDigit).length_le hlength
    exact ⟨_, _, _, List.takeWhile_append_dropWhile.symm, badEscape_of_digits hc hrun, rfl⟩

theorem badEscape_of_readChar (hinner : Inner (c :: rest)) (h : readChar c rest = .error cause) :
    ∃ escape after message, c :: rest = escape ++ after ∧ BadEscape escape after message ∧
      cause = .unexpectedBecause (String.ofList escape) message := by
  unfold readChar at h
  cases hinner with
  | char _ hslash _ =>
    rw [if_neg hslash] at h
    cases h
  | @escaped a inner _ _ =>
    rw [if_pos rfl] at h
    dsimp only at h
    split at h
    · cases h
    · next hescape =>
      split at h
      · next ha =>
        obtain ⟨digits, after, message, rfl, hbad, rfl⟩ := badEscape_of_readCode ha h
        exact ⟨'\\' :: a :: digits, after, message, rfl, hbad, rfl⟩
      · next ha =>
        cases h
        have hdigit := Bool.eq_false_iff.mpr ha
        exact ⟨['\\', a], inner, _, rfl, .unknown (notMem_of_escape? hescape) hdigit, rfl⟩

theorem badEscape_of_decode (hinner : Inner inner) (h : decode inner = .error cause) :
    ∃ front value escape back message, inner = front ++ (escape ++ back) ∧ Spells front value ∧
      BadEscape escape back message ∧ cause = .unexpectedBecause (String.ofList escape) message := by
  fun_induction decode inner with
  | case1 => cases h
  | case2 c rest cause' hread =>
    cases h
    obtain ⟨escape, back, message, htext, hbad, hcause⟩ := badEscape_of_readChar hinner hread
    exact ⟨[], [], escape, back, message, htext, .nil, hbad, hcause⟩
  | case3 c rest char after hread ih =>
    cases hdecode : decode after with
    | ok value =>
      rw [hdecode] at h
      cases h
    | error cause' =>
      rw [hdecode] at h
      cases h
      obtain ⟨hafter, part, htext, hspells⟩ := spells_of_readChar hinner hread
      obtain ⟨front, value, escape, back, message, rfl, hfront, hbad, hcause⟩ := ih hafter hdecode
      exact ⟨part ++ front, char :: value, escape, back, message, by rw [htext, List.append_assoc],
        hspells front value hfront, hbad, hcause⟩

end refusing

theorem decode_of_not_spells {inner : List Char} (hinner : Inner inner)
    (h : ∀ value, ¬ Spells inner value) :
    ∃ text message, decode inner = .error (.unexpectedBecause text message) := by
  cases hdecode : decode inner with
  | ok value => exact absurd (spells_of_decode hinner hdecode) (h value)
  | error cause =>
    obtain ⟨-, -, escape, -, message, -, -, -, rfl⟩ := badEscape_of_decode hinner hdecode
    exact ⟨_, message, rfl⟩

end Literal

namespace Token
open Text Literal Lexeme

section scanning
variable {file : String} {before text : List Char}

theorem denotes_of_scanFrom {tokens : List Token} {token : Token}
    (h : scanFrom file (width before) text = .ok tokens) (htoken : token ∈ tokens) :
    token.kind = .eof ∨ ∃ scanned part after, text = scanned ++ (part ++ after) ∧
      token.span = .ofWidth file (width (before ++ scanned)) (width part) ∧
      Denotes part token.kind token.value := by
  induction text using Lexeme.induction generalizing before tokens with
  | nil =>
    rw [scanFrom_nil] at h
    cases h
    obtain rfl := List.mem_singleton.mp htoken
    exact .inl rfl
  | error c cs cause hread =>
    rw [scanFrom_of_error hread] at h
    cases h
  | read c cs l hread ih =>
    have htext := text_append_rest hread
    rw [scanFrom_of_read hread, ← width_append] at h
    cases hscan : scanFrom file (width (before ++ l.text)) l.rest with
    | error d =>
      rw [hscan] at h
      cases h
    | ok tokens' =>
      rw [hscan] at h
      cases h
      rcases List.mem_append.mp htoken with hhere | hlater
      · obtain ⟨⟨kind, value⟩, hlabel, rfl⟩ :=
          Option.map_eq_some_iff.mp (Option.mem_toList.mp hhere)
        refine .inr ⟨[], l.text, l.rest, htext.symm, ?_, (isRead hread).denotes hlabel⟩
        rw [List.append_nil]
      · refine (ih hscan hlater).imp_right ?_
        rintro ⟨scanned, part, after, hrest, hspan, hdenotes⟩
        refine ⟨l.text ++ scanned, part, after, ?_, ?_, hdenotes⟩
        · rw [List.append_assoc, ← hrest, htext]
        · rw [hspan, List.append_assoc]

theorem scanFrom_misspelled {inner : List Char} {tokens : List Token} {offset : Nat}
    (htext : scanFrom file offset text = .ok tokens) (hinner : Inner inner)
    (h : ∀ value, ¬ Spells inner value) (after : List Char) :
    ∃ escape message, scanFrom file offset (text ++ '"' :: (inner ++ '"' :: after)) =
      .error ⟨.unexpectedBecause escape message, .ofOffset file (offset + width text)⟩ := by
  obtain ⟨escape, message, hdecode⟩ := decode_of_not_spells hinner h
  have hread : Lexeme.read '"' (inner ++ '"' :: after) = .error (.unexpectedBecause escape message) := by
    rw [read_literal hinner, hdecode]
    rfl
  have hquote : ∀ d ∈ ('"' :: (inner ++ '"' :: after)).head?, Separates d := by
    intro d hd
    exact Option.some.inj hd ▸ separates_quote
  obtain ⟨_, _, hscan⟩ := scanFrom_append hquote htext
  refine ⟨escape, message, ?_⟩
  rw [hscan, scanFrom_of_error hread]
  rfl

theorem misspelled_of_read {c : Char} {cs : List Char} {escape message : String}
    (h : Lexeme.read c cs = .error (.unexpectedBecause escape message)) :
    ∃ inner after, c :: cs = '"' :: (inner ++ '"' :: after) ∧ Inner inner ∧
      ∀ value, ¬ Spells inner value := by
  cases isRefused h with
  | @literal inner after _ hquote hbody hdecode =>
    refine ⟨inner, after, by rw [hquote, append_of_body hbody], inner_of_body hbody, ?_⟩
    intro value hvalue
    rw [decode_of_spells hvalue] at hdecode
    cases hdecode

theorem misspelled_of_scanFrom {offset : Nat} {escape message : String} {position : Position}
    (h : scanFrom file offset text = .error ⟨.unexpectedBecause escape message, position⟩) :
    ∃ scanned inner after, text = scanned ++ '"' :: (inner ++ '"' :: after) ∧
      (∃ tokens, scanFrom file offset scanned = .ok tokens) ∧ Inner inner ∧
      (∀ value, ¬ Spells inner value) ∧ position = .ofOffset file (offset + width scanned) := by
  obtain ⟨scanned, c, cs, rfl, hscanned, hread, hposition⟩ := scanFrom_stops h
  obtain ⟨inner, after, hrest, hinner, hspells⟩ := misspelled_of_read hread
  exact ⟨scanned, inner, after, by rw [hrest], hscanned, hinner, hspells, hposition⟩

theorem scanFrom_spelled {inner value : List Char} (h : Spells inner value) (offset : Nat) :
    scanFrom file offset (enclosed inner) =
      .ok [⟨.string, String.ofList value, .ofWidth file offset (width (enclosed inner))⟩,
        atEnd (.ofOffset file (offset + width (enclosed inner)))] := by
  have hread : Lexeme.read '"' (inner ++ ['"']) =
      .ok ⟨some (.string, String.ofList value), enclosed inner, []⟩ := by
    rw [read_literal (inner_of_spells h), decode_of_spells h]
    rfl
  rw [enclosed, scanFrom_of_read hread, scanFrom_nil]
  rfl

end scanning

/-- A text in quotes is one token with the value that the text spells. Every string token comes from
such a text, and a scan is stopped for an escape if and only if it comes to a text in quotes that
spells nothing, and there. -/
theorem scan_literal (file : String) :
    (∀ inner value, Spells inner value → scan (String.ofList (enclosed inner)) file =
      .ok [⟨.string, String.ofList value, .ofWidth file 0 (width (enclosed inner))⟩,
        atEnd (.ofOffset file (width (enclosed inner)))]) ∧
    (∀ source tokens token, scan source file = .ok tokens → token ∈ tokens → token.kind = .string →
      ∃ before inner after, source.toList = before ++ (enclosed inner ++ after) ∧
        token.span = .ofWidth file (width before) (width (enclosed inner)) ∧
        Spells inner token.value.toList) ∧
    ∀ source position,
      (∃ escape message,
        scan source file = .error ⟨.unexpectedBecause escape message, position⟩) ↔
      ∃ before inner after, source.toList = before ++ (enclosed inner ++ after) ∧
        (∃ tokens, scan (String.ofList before) file = .ok tokens) ∧ Inner inner ∧
        (∀ value, ¬ Spells inner value) ∧ position = .ofOffset file (width before) := by
  have henclosed : ∀ inner after, enclosed inner ++ after = '"' :: (inner ++ '"' :: after) := by
    simp [enclosed]
  refine ⟨fun inner value h => ?_, fun source tokens token h htoken hkind => ?_,
    fun source position => ⟨?_, ?_⟩⟩
  · rw [scan, String.toList_ofList, scanFrom_spelled h, Nat.zero_add]
  · have hfrom : scanFrom file (width []) source.toList = .ok tokens := h
    rcases denotes_of_scanFrom hfrom htoken with heof | ⟨before, part, after, hsource, hspan, hdenotes⟩
    · rw [heof] at hkind
      cases hkind
    · obtain ⟨inner, rfl, hspells⟩ := hdenotes.literal hkind
      exact ⟨before, inner, after, hsource, hspan, hspells⟩
  · rintro ⟨escape, message, h⟩
    obtain ⟨before, inner, after, hsource, hbefore, hinner, hspells, hposition⟩ :=
      misspelled_of_scanFrom h
    refine ⟨before, inner, after, by rw [hsource, henclosed], ?_, hinner, hspells, ?_⟩
    · rwa [scan, String.toList_ofList]
    · rw [hposition, Nat.zero_add]
  · rintro ⟨before, inner, after, hsource, ⟨tokens, hbefore⟩, hinner, hspells, rfl⟩
    rw [scan, String.toList_ofList] at hbefore
    obtain ⟨escape, message, h⟩ := scanFrom_misspelled hbefore hinner hspells after
    refine ⟨escape, message, ?_⟩
    rw [scan, hsource, henclosed, h, Nat.zero_add]

theorem scan_literal_everyEscape :
    (scan "\"é\n\\n\\t\\\"\\\\\\0650\"" "escapes.tig" =
      .ok [⟨.string, "é\n\n\t\"\\A0", .ofWidth "escapes.tig" 0 18⟩,
        atEnd (.ofOffset "escapes.tig" 18)]) ∧
    ∃ escape message, scan "f(\"a\\128\")" "escapes.tig" =
      .error ⟨.unexpectedBecause escape message, .ofOffset "escapes.tig" 2⟩ := by
  have hspells : Spells "é\n\\n\\t\\\"\\\\\\0650".toList "é\n\n\t\"\\A0".toList :=
    .char (by decide) (by decide) <| .char (by decide) (by decide) <| .newline <| .tab <| .quote <|
      .backslash <| .code (x := 0) (y := 6) (z := 5) (by decide) (by decide) (by decide) (by decide) <|
      .char (by decide) (by decide) .nil
  have hfront : (scan "f(" "escapes.tig").toOption.isSome = true := by decide +kernel
  have hdecode : (decode "a\\128".toList).toOption = none := by decide +kernel
  have hwidth : width (enclosed "é\n\\n\\t\\\"\\\\\\0650".toList) = 18 := by decide +kernel
  have hfirst := (scan_literal "escapes.tig").1 _ _ hspells
  rw [hwidth, String.ofList_toList] at hfirst
  refine ⟨hfirst, ?_⟩
  refine ((scan_literal "escapes.tig").2.2 _ _).mpr
    ⟨"f(".toList, "a\\128".toList, [')'], by decide +kernel, ?_, ?_, ?_, by decide +kernel⟩
  · rw [String.ofList_toList]
    cases hscan : scan "f(" "escapes.tig" with
    | ok tokens => exact ⟨tokens, rfl⟩
    | error d =>
      rw [hscan] at hfront
      cases hfront
  · exact .char (by decide) (by decide) <| .escaped (by decide) <| .char (by decide) (by decide) <|
      .char (by decide) (by decide) .nil
  · intro value hvalue
    rw [decode_of_spells hvalue] at hdecode
    cases hdecode

end Token

end TigerLang
