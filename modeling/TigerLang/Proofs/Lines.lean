import TigerLang.Proofs.Utf8
import TigerLang.Source.Line

/-! Lines by the bytes of a text. The line that is shown for an offset is the one between the
newlines around it, whatever the characters are made of, and its number counts the newlines before
it. -/

namespace TigerLang.Source
open Text

section pieces

theorem flatten_pieces (text : List Char) : (pieces text).flatten = text := by
  induction text with
  | nil => rfl
  | cons c cs ih =>
    rw [pieces]
    split
    · simp [ih]
    · cases hpieces : pieces cs with
      | nil => simpa [hpieces] using ih
      | cons p ps => simpa [hpieces] using ih

theorem pieces_ne_nil {text : List Char} (h : text ≠ []) : pieces text ≠ [] := by
  intro hnil
  apply h
  rw [← flatten_pieces text, hnil]
  rfl

inductive Lined : List (List Char) → Prop
  | nil : Lined []
  | last {line : List Char} (hne : line ≠ []) (hline : '\n' ∉ line) : Lined [line]
  | cons {line : List Char} {lines : List (List Char)} (hline : '\n' ∉ line)
    (hlines : Lined lines) : Lined ((line ++ ['\n']) :: lines)

theorem lined_pieces (text : List Char) : Lined (pieces text) := by
  induction text with
  | nil => exact .nil
  | cons c cs ih =>
    rw [pieces]
    split
    · next hc =>
      rw [hc]
      exact @Lined.cons [] _ List.not_mem_nil ih
    · next hc =>
      have hnew : ∀ line : List Char, '\n' ∉ line → '\n' ∉ c :: line := fun line hline hmem =>
        (List.mem_cons.mp hmem).elim (fun heq => hc heq.symm) hline
      cases hpieces : pieces cs with
      | nil => exact .last (List.cons_ne_nil c []) (hnew [] List.not_mem_nil)
      | cons p ps =>
        rw [hpieces] at ih
        cases ih with
        | last _ hline => exact .last (List.cons_ne_nil c p) (hnew p hline)
        | cons hline hlines => exact .cons (hnew _ hline) hlines

end pieces

/-- A text cut at a line: what comes before it, what is on it, the newline that ends it or nothing
at the end of the text, and what comes after it. -/
structure Cut (front body ending rest : List Char) : Prop where
  front : front = [] ∨ ∃ others, front = others ++ ['\n']
  body : '\n' ∉ body
  ending : ending = ['\n'] ∨ ending = [] ∧ rest = []

theorem Lined.of_cons {p : List Char} {lines : List (List Char)} (h : Lined (p :: lines))
    (hne : lines ≠ []) : ∃ line, p = line ++ ['\n'] ∧ '\n' ∉ line ∧ Lined lines := by
  cases h with
  | last => exact absurd rfl hne
  | @cons line _ hline hlines => exact ⟨line, rfl, hline, hlines⟩

theorem Lined.cut {before after : List (List Char)} {piece : List Char}
    (h : Lined (before ++ piece :: after)) :
    piece ≠ [] ∧ before.flatten.count '\n' = before.length ∧
      ∃ body ending, piece = body ++ ending ∧ Cut before.flatten body ending after.flatten := by
  induction before with
  | nil =>
    cases h with
    | last hne hline => exact ⟨hne, rfl, piece, [], by simp, .inl rfl, hline, .inr ⟨rfl, rfl⟩⟩
    | @cons line _ hline _ => exact ⟨by simp, rfl, line, ['\n'], rfl, .inl rfl, hline, .inl rfl⟩
  | cons p before ih =>
    obtain ⟨line, rfl, hline, hlined⟩ := h.of_cons (by simp)
    obtain ⟨hne, hcount, body, ending, rfl, hcut⟩ := ih hlined
    refine ⟨hne, ?_, body, ending, rfl, .inr ?_, hcut.body, hcut.ending⟩
    · simp [hcount, List.count_eq_zero.mpr hline]
    · rcases hcut.front with hnil | ⟨others, hothers⟩
      · exact ⟨line, by rw [List.flatten_cons, hnil, List.append_nil]⟩
      · exact ⟨line ++ ['\n'] ++ others, by rw [List.flatten_cons, hothers]; simp⟩

theorem pieces_cut {text piece : List Char} {before after : List (List Char)}
    (h : pieces text = before ++ piece :: after) :
    piece ≠ [] ∧ before.flatten.count '\n' = before.length ∧ ∃ body ending, piece = body ++ ending ∧
      text = before.flatten ++ (body ++ ending ++ after.flatten) ∧
      Cut before.flatten body ending after.flatten := by
  obtain ⟨hne, hcount, body, ending, rfl, hcut⟩ := (h ▸ lined_pieces text).cut
  refine ⟨hne, hcount, body, ending, rfl, ?_, hcut⟩
  rw [← flatten_pieces text, h, List.flatten_append, List.flatten_cons]

/-- The bytes from `start` to `stop` are those of the line that holds byte `offset`: from after the
last newline before it, up to the next newline or the end. -/
structure Around (content : List UInt8) (offset start stop : Nat) : Prop where
  start_le : start ≤ offset
  lt_stop : offset < stop
  stop_le : stop ≤ content.length
  opens : start = 0 ∨ content[start - 1]? = some '\n'.toUInt8
  closes : stop = content.length ∨ content[stop - 1]? = some '\n'.toUInt8
  unbroken : ∀ i, start ≤ i → i + 1 < stop → content[i]? ≠ some '\n'.toUInt8

theorem width_pos {text : List Char} (h : text ≠ []) : 0 < width text := by
  obtain ⟨c, cs, rfl⟩ := List.exists_cons_of_ne_nil h
  exact Nat.lt_of_lt_of_le c.utf8Size_pos (Nat.le_add_right _ _)

section bytes
variable {front body ending rest : List Char} {offset : Nat}

theorem newline_notMem_bytes (h : '\n' ∉ body) : '\n'.toUInt8 ∉ bytes body := by
  rwa [mem_bytes_iff rfl]

theorem getElem?_bytes_newline (front rest : List Char) :
    (bytes (front ++ '\n' :: rest))[width front]? = some '\n'.toUInt8 := by
  rw [bytes_append, List.getElem?_append_right (by simp), length_bytes, Nat.sub_self]
  rfl

theorem Cut.width_ending_le (h : Cut front body ending rest) : width ending ≤ 1 := by
  rcases h.ending with rfl | ⟨rfl, -⟩ <;> decide

theorem Cut.around (h : Cut front body ending rest) (hle : width front ≤ offset)
    (hlt : offset < width front + width (body ++ ending)) :
    Around (bytes (front ++ (body ++ ending ++ rest))) offset (width front)
      (width front + width (body ++ ending)) := by
  have hending := h.width_ending_le
  have hlength : (bytes (front ++ (body ++ ending ++ rest))).length =
      width front + (width (body ++ ending) + width rest) := by
    rw [length_bytes, width_append, width_append]
  refine ⟨hle, hlt, by omega, ?_, ?_, fun i hi hi' hnewline => ?_⟩
  · rcases h.front with rfl | ⟨others, rfl⟩
    · exact .inl rfl
    · right
      rw [List.append_assoc, width_append]
      exact getElem?_bytes_newline others _
  · rcases h.ending with rfl | ⟨rfl, rfl⟩
    · right
      have htext : front ++ (body ++ ['\n'] ++ rest) = front ++ body ++ '\n' :: rest := by simp
      have hindex : width front + width (body ++ ['\n']) - 1 = width (front ++ body) := by
        rw [width_append, width_append]
        rfl
      rw [htext, hindex]
      exact getElem?_bytes_newline (front ++ body) rest
    · left
      rw [hlength]
      rfl
  · rw [width_append] at hi'
    simp only [bytes_append, List.append_assoc] at hnewline
    rw [List.getElem?_append_right (by simpa using hi), length_bytes,
      List.getElem?_append_left (by rw [length_bytes]; omega)] at hnewline
    exact newline_notMem_bytes h.body (List.mem_of_getElem? hnewline)

theorem Cut.count_newline (h : Cut front body ending rest) (hle : width front ≤ offset)
    (hlt : offset < width front + width (body ++ ending)) :
    ((bytes (front ++ (body ++ ending ++ rest))).take offset).count '\n'.toUInt8 =
      front.count '\n' := by
  have hending := h.width_ending_le
  rw [width_append] at hlt
  -- What comes before the offset on its own line has no newline, or the line would end there.
  have hbody :
      ((bytes (body ++ ending ++ rest)).take (offset - width front)).count '\n'.toUInt8 = 0 := by
    rw [List.append_assoc, bytes_append,
      List.take_append_of_le_length (by rw [length_bytes]; omega)]
    exact List.count_eq_zero.mpr fun hmem => newline_notMem_bytes h.body (List.mem_of_mem_take hmem)
  rw [bytes_append, List.take_append, List.take_of_length_le (by simpa using hle), length_bytes,
    List.count_append, hbody, count_bytes rfl, Nat.add_zero]

theorem bytes_between (front piece rest : List Char) :
    ((bytes (front ++ (piece ++ rest))).take (width front + width piece)).drop (width front) =
      bytes piece := by
  rw [← List.append_assoc, bytes_append, ← width_append, ← length_bytes (front ++ piece),
    List.take_left, bytes_append, ← length_bytes front, List.drop_left]

end bytes

inductive Ended : List UInt8 → List UInt8 → Prop
  | atEnd {line : List UInt8} (h : line.getLast? ≠ some '\n'.toUInt8) : Ended line line
  | newline {line : List UInt8} (h : line.getLast? ≠ some '\r'.toUInt8) :
    Ended (line ++ ['\n'.toUInt8]) line
  | returned {line : List UInt8} : Ended (line ++ ['\r'.toUInt8, '\n'.toUInt8]) line

theorem ended_withoutEnding (piece : List Char) :
    Ended (bytes piece) (bytes (withoutEnding piece)) := by
  unfold withoutEnding
  split
  · next cs hreverse =>
    have hpiece : piece = cs.reverse ++ ['\r', '\n'] := by
      rw [← List.reverse_reverse piece, hreverse]
      simp
    rw [hpiece, bytes_append]
    exact .returned
  · next cs hreturn hreverse =>
    have hpiece : piece = cs.reverse ++ ['\n'] := by
      rw [← List.reverse_reverse piece, hreverse]
      simp
    rw [hpiece, bytes_append]
    refine .newline fun hlast => ?_
    have hlast := getLast?_of_getLast?_bytes rfl hlast
    rw [List.getLast?_reverse] at hlast
    obtain ⟨tail, rfl⟩ := List.head?_eq_some_iff.mp hlast
    exact hreturn tail rfl
  · next _ hnewline =>
    refine .atEnd fun hlast => ?_
    have hlast := getLast?_of_getLast?_bytes rfl hlast
    rw [← List.head?_reverse] at hlast
    obtain ⟨tail, htail⟩ := List.head?_eq_some_iff.mp hlast
    exact hnewline tail htail

theorem exists_lineBeyond {offset start : Nat} {ps : List (List Char)} (number : Nat)
    (hstart : start ≤ offset) (h : offset < start + width ps.flatten) :
    ∃ before piece after, ps = before ++ piece :: after ∧ start + width before.flatten ≤ offset ∧
      offset < start + width before.flatten + width piece ∧
      lineBeyond offset number start ps =
        some ⟨number + before.length, piece, offset - (start + width before.flatten)⟩ := by
  induction ps generalizing number start with
  | nil => exact absurd h (Nat.not_lt.mpr hstart)
  | cons p ps ih =>
    rw [lineBeyond]
    split
    · next hlt => exact ⟨[], p, ps, rfl, hstart, hlt, rfl⟩
    · next hbeyond =>
      rw [List.flatten_cons, width_append, ← Nat.add_assoc] at h
      obtain ⟨before, piece, after, rfl, hle, hlt, hline⟩ :=
        ih (number + 1) (Nat.not_lt.mp hbeyond) h
      refine ⟨p :: before, piece, after, rfl, ?_, ?_, ?_⟩
      · rw [List.flatten_cons, width_append]
        omega
      · rw [List.flatten_cons, width_append]
        omega
      · rw [hline, List.length_cons, List.flatten_cons, width_append, Nat.add_right_comm,
          Nat.add_assoc, Nat.add_assoc]

/-- The line is the one that holds the byte at the offset, with its ending. At the end of the text
it is the last one, without its ending. -/
inductive Line.IsAt (line : Line) (text : List Char) (offset : Nat) : Prop
  | inside {start stop : Nat} (around : Around (bytes text) offset start stop)
    (number : line.number = 1 + ((bytes text).take offset).count '\n'.toUInt8)
    (content : bytes line.text = ((bytes text).take stop).drop start)
    (column : line.column = offset - start)
  | last {start : Nat} (atEnd : offset = width text)
    (around : Around (bytes text) (offset - 1) start offset)
    (number : line.number = 1 + ((bytes text).take (offset - 1)).count '\n'.toUInt8)
    (content : Ended ((bytes text).drop start) (bytes line.text))
    (column : line.column = (bytes line.text).length)

def OneLine (text : List Char) : Prop :=
  ∃ body ending, text = body ++ ending ∧ '\n' ∉ body ∧ (ending = ['\n'] ∨ ending = [])

theorem Cut.oneLine {front body ending rest : List Char} (h : Cut front body ending rest) :
    OneLine (body ++ ending) :=
  ⟨body, ending, rfl, h.body, h.ending.imp_right And.left⟩

theorem OneLine.of_prefix {text line : List Char} (h : OneLine text) (hstarts : line <+: text) :
    OneLine line := by
  obtain ⟨body, ending, rfl, hbody, hending⟩ := h
  have hinside : line <+: body → OneLine line := fun hline =>
    ⟨line, [], (List.append_nil line).symm, fun hmem => hbody (hline.subset hmem), .inr rfl⟩
  rcases hending with rfl | rfl
  · rcases List.prefix_concat_iff.mp hstarts with heq | hline
    · exact ⟨body, ['\n'], heq, hbody, .inl rfl⟩
    · exact hinside hline
  · rw [List.append_nil] at hstarts
    exact hinside hstarts

theorem exists_lineAt_inside {text : List Char} {offset : Nat} (hlt : offset < width text) :
    ∃ line, lineAt text offset = some line ∧ line.IsAt text offset ∧ OneLine line.text := by
  have hwidth : offset < 0 + width (pieces text).flatten := by rwa [flatten_pieces, Nat.zero_add]
  obtain ⟨before, piece, after, hpieces, hle, hlt', hline⟩ :=
    exists_lineBeyond 1 (Nat.zero_le offset) hwidth
  obtain ⟨-, hcount, body, ending, rfl, htext, hcut⟩ := pieces_cut hpieces
  rw [Nat.zero_add] at hle hlt' hline
  have haround := hcut.around hle hlt'
  have hnumber := hcut.count_newline hle hlt'
  rw [← htext] at haround hnumber
  refine ⟨⟨1 + before.length, body ++ ending, offset - width before.flatten⟩, ?_,
    .inside haround ?_ ?_ rfl, hcut.oneLine⟩
  · rw [lineAt, if_pos hlt, hline]
  · rw [hnumber, hcount]
  · rw [htext, bytes_between]

theorem withoutEnding_prefix_self (piece : List Char) : withoutEnding piece <+: piece := by
  unfold withoutEnding
  split
  · next cs hreverse =>
    rw [← List.reverse_reverse piece, hreverse]
    simp [List.prefix_append]
  · next cs _ hreverse =>
    rw [← List.reverse_reverse piece, hreverse]
    simp [List.prefix_append]
  · exact List.prefix_rfl

theorem exists_lineAt_end {text : List Char} (hne : text ≠ []) :
    ∃ line, lineAt text (width text) = some line ∧ line.IsAt text (width text) ∧
      OneLine line.text := by
  obtain ⟨before, last, hpieces⟩ :=
    (List.eq_nil_or_concat (pieces text)).resolve_left (pieces_ne_nil hne)
  rw [List.concat_eq_append] at hpieces
  obtain ⟨hlast, hcount, body, ending, rfl, htext, hcut⟩ := pieces_cut hpieces
  have hwidth : width text = width before.flatten + width (body ++ ending) := by
    rw [htext, List.flatten_nil, List.append_nil, width_append]
  have hpos := width_pos hlast
  have hle : width before.flatten ≤ width text - 1 := by omega
  have hlt : width text - 1 < width before.flatten + width (body ++ ending) := by omega
  have haround := hcut.around hle hlt
  have hnumber := hcut.count_newline hle hlt
  rw [← htext, ← hwidth] at haround
  rw [← htext] at hnumber
  refine ⟨⟨before.length + 1, withoutEnding (body ++ ending),
    width (withoutEnding (body ++ ending))⟩, ?_, .last rfl haround ?_ ?_ (length_bytes _).symm,
    hcut.oneLine.of_prefix (withoutEnding_prefix_self _)⟩
  · rw [lineAt, if_neg (by omega), if_pos rfl, hpieces, List.getLast?_concat, List.length_append]
    rfl
  · rw [hnumber, hcount, Nat.add_comm]
  · rw [htext, List.flatten_nil, List.append_nil, bytes_append, ← length_bytes, List.drop_left]
    exact ended_withoutEnding (body ++ ending)

theorem exists_lineAt {text : List Char} (hne : text ≠ []) {offset : Nat}
    (h : offset ≤ width text) :
    ∃ line, lineAt text offset = some line ∧ line.IsAt text offset ∧ OneLine line.text := by
  rcases Nat.lt_or_eq_of_le h with hlt | rfl
  · exact exists_lineAt_inside hlt
  · exact exists_lineAt_end hne

/-- An offset beyond the end has no line, and none has one in a text without lines. An offset inside
is on the line around it, with the number that the newlines before it give and at its distance from
the start of the line. The end of a text is at the end of its last line, which is shown without its
ending. -/
theorem lineAt_around (text : List Char) (offset : Nat) :
    (width text < offset ∨ text = [] → lineAt text offset = none) ∧
    (offset < width text → ∃ line start stop, lineAt text offset = some line ∧
      Around (bytes text) offset start stop ∧
      line.number = 1 + ((bytes text).take offset).count '\n'.toUInt8 ∧
      bytes line.text = ((bytes text).take stop).drop start ∧ line.column = offset - start) ∧
    (offset = width text → text ≠ [] → ∃ line start, lineAt text offset = some line ∧
      Around (bytes text) (offset - 1) start offset ∧
      line.number = 1 + ((bytes text).take (offset - 1)).count '\n'.toUInt8 ∧
      Ended ((bytes text).drop start) (bytes line.text) ∧
      line.column = (bytes line.text).length) := by
  refine ⟨?_, fun hlt => ?_, fun hend hne => ?_⟩
  · rintro (hlt | rfl)
    · rw [lineAt, if_neg (by omega), if_neg (by omega)]
    · rw [lineAt, if_neg (by simp)]
      split <;> rfl
  · obtain ⟨line, hline, hat, -⟩ := exists_lineAt_inside hlt
    cases hat with
    | @inside start stop haround hnumber hcontent hcolumn =>
      exact ⟨line, start, stop, hline, haround, hnumber, hcontent, hcolumn⟩
    | last hend => omega
  · rw [hend]
    obtain ⟨line, hline, hat, -⟩ := exists_lineAt_end hne
    cases hat with
    | inside haround =>
      have hbeyond := Nat.lt_of_lt_of_le haround.lt_stop haround.stop_le
      rw [length_bytes] at hbeyond
      exact absurd hbeyond (Nat.lt_irrefl _)
    | @last start _ haround hnumber hended hcolumn =>
      exact ⟨line, start, hline, haround, hnumber, hended, hcolumn⟩

theorem lineAt_around_twoLines :
    let text := "é\r\nab\r\n".toList
    lineAt text 9 = none ∧
    (lineAt text 1 = some ⟨1, "é\r\n".toList, 1⟩ ∧ ∃ start stop, Around (bytes text) 1 start stop ∧
      bytes "é\r\n".toList = ((bytes text).take stop).drop start ∧ 1 = 1 - start) ∧
    lineAt text 8 = some ⟨2, "ab".toList, 2⟩ ∧ ∃ start, Around (bytes text) 7 start 8 ∧
      Ended ((bytes text).drop start) (bytes "ab".toList) := by
  intro text
  have hwidth : width text = 8 := by decide +kernel
  have hinside : lineAt text 1 = some ⟨1, "é\r\n".toList, 1⟩ := by decide +kernel
  have hlast : lineAt text 8 = some ⟨2, "ab".toList, 2⟩ := by decide +kernel
  obtain ⟨hbeyond, -⟩ := lineAt_around text 9
  obtain ⟨-, hline, -⟩ := lineAt_around text 1
  obtain ⟨-, -, hend⟩ := lineAt_around text 8
  refine ⟨hbeyond (.inl (by omega)), ⟨hinside, ?_⟩, hlast, ?_⟩
  · obtain ⟨line, start, stop, hfound, haround, -, htext, hcolumn⟩ := hline (by omega)
    obtain rfl := Option.some.inj (hinside.symm.trans hfound)
    exact ⟨start, stop, haround, htext, hcolumn⟩
  · obtain ⟨line, start, hfound, haround, -, hended, -⟩ := hend hwidth.symm (by decide)
    obtain rfl := Option.some.inj (hlast.symm.trans hfound)
    exact ⟨start, haround, hended⟩

end TigerLang.Source
