import Mathlib.Data.List.TakeWhile
import TigerLang.Diagnostic.Render
import TigerLang.Proofs.Lines
import TigerLang.Proofs.Shown

/-! The arrow under the line at fault. Its length is counted in bytes, so that it points at the
character it is about only if nothing but ASCII stands before that on its line. -/

namespace TigerLang

namespace Text

theorem utf8Size_eq_one_iff {c : Char} : c.utf8Size = 1 ↔ isAscii c = true := by
  have hval : c.utf8Size = 1 ↔ c.val.toNat ≤ 127 := Char.utf8Size_eq_one_iff
  rw [hval, isAscii, decide_eq_true_iff]
  exact Nat.lt_succ_iff.symm

theorem length_le_width (text : List Char) : text.length ≤ width text := by
  induction text with
  | nil => exact Nat.le_refl 0
  | cons c text ih =>
    have hpos := c.utf8Size_pos
    rw [List.length_cons, width_cons]
    omega

theorem width_eq_length_iff {text : List Char} :
    width text = text.length ↔ ∀ c ∈ text, isAscii c = true := by
  induction text with
  | nil => simp
  | cons c text ih =>
    have hpos := c.utf8Size_pos
    have hle := length_le_width text
    rw [List.forall_mem_cons, ← ih, ← utf8Size_eq_one_iff, List.length_cons, width_cons]
    omega

theorem dropWhile_append_cons {α : Type} {p : α → Bool} {c : α} (hc : p c = false)
    (front rest : List α) :
    (front ++ c :: rest).dropWhile p = front.dropWhile p ++ c :: rest := by
  rw [List.dropWhile_append]
  split
  · next hempty =>
    have hnil : front.dropWhile p = [] := List.isEmpty_iff.mp hempty
    rw [hnil, List.nil_append, List.dropWhile_cons_of_neg (by simp [hc])]
  · rfl

theorem trimEnd_append_cons {c : Char} (hc : isBlank c = false) (front rest : List Char) :
    trimEnd (front ++ c :: rest) = front ++ c :: trimEnd rest := by
  have hreverse : (front ++ c :: rest).reverse = rest.reverse ++ c :: front.reverse := by simp
  unfold trimEnd
  rw [hreverse, dropWhile_append_cons hc]
  simp

theorem exists_append_of_width_le {front rest before after : List Char}
    (h : front ++ rest = before ++ after) (hle : width front ≤ width before) :
    ∃ middle, before = front ++ middle ∧ rest = middle ++ after := by
  rcases List.append_eq_append_iff.mp h with hlonger | ⟨extra, hfront, hafter⟩
  · exact hlonger
  · have hzero : width extra = 0 := by
      rw [hfront, width_append] at hle
      omega
    have hnil : extra = [] := by
      by_contra hne
      exact absurd hzero (Nat.ne_of_gt (Source.width_pos hne))
    rw [hnil] at hfront hafter
    exact ⟨[], by simpa using hfront.symm, by simpa using hafter.symm⟩

end Text

namespace Source
open Text

def isIndent (c : Char) : Bool := c == ' ' || c == '\t'

def leading (before : List Char) : List Char :=
  (before.reverse.takeWhile (· != '\n')).reverse.dropWhile isIndent

theorem takeWhile_reverse_line {front lead : List Char}
    (hfront : front = [] ∨ ∃ others, front = others ++ ['\n']) (hlead : '\n' ∉ lead) :
    ((front ++ lead).reverse.takeWhile (· != '\n')).reverse = lead := by
  have hline : ∀ c ∈ lead.reverse, (c != '\n') = true := by
    intro c hc
    rw [bne_iff_ne]
    rintro rfl
    exact hlead (List.mem_reverse.mp hc)
  rw [List.reverse_append, List.takeWhile_append_of_pos hline]
  have hstop : front.reverse.takeWhile (· != '\n') = [] := by
    rcases hfront with rfl | ⟨others, rfl⟩
    · rfl
    · simp
  rw [hstop, List.append_nil, List.reverse_reverse]

theorem exists_ending {lead rest body ending : List Char} {c : Char} (hc : c ≠ '\n')
    (hbody : '\n' ∉ body) (hending : ending = ['\n'] ∨ ending = [])
    (h : lead ++ c :: rest = body ++ ending) :
    ∃ tail, rest = tail ++ ending ∧ '\n' ∉ lead ++ c :: tail := by
  have hsplit : lead ++ [c] ++ rest = body ++ ending := by rw [← h]; simp
  rcases List.append_eq_append_iff.mp hsplit with ⟨tail, rfl, hrest⟩ | ⟨extra, hlead, rfl⟩
  · refine ⟨tail, hrest, ?_⟩
    simpa using hbody
  · rcases List.eq_nil_or_concat extra with rfl | ⟨others, last, rfl⟩
    · refine ⟨[], rfl, ?_⟩
      rw [List.append_nil] at hlead
      rwa [hlead]
    · -- The ending would begin with the character.
      rw [List.concat_eq_append, ← List.append_assoc] at hlead
      obtain ⟨-, hlast⟩ := List.append_inj' hlead rfl
      obtain rfl : c = last := List.singleton_inj.mp hlast
      rcases hending with hnewline | hnil
      · have hmem : c ∈ ['\n'] := by
          rw [← hnewline]
          simp
        exact absurd (List.mem_singleton.mp hmem) hc
      · simp at hnil

theorem lineAt_character {before after : List Char} {c : Char} (hc : c ≠ '\n') :
    ∃ number lead tail ending, lineAt (before ++ c :: after) (width before) =
        some ⟨number, lead ++ c :: (tail ++ ending), width lead⟩ ∧
      '\n' ∉ lead ++ c :: tail ∧ (ending = ['\n'] ∨ ending = []) ∧
      leading before = lead.dropWhile isIndent := by
  have hpos := c.utf8Size_pos
  have hlt : width before < width (before ++ c :: after) := by
    rw [width_append, width_cons]
    omega
  have hwidth : width before < 0 + width (pieces (before ++ c :: after)).flatten := by
    rwa [flatten_pieces, Nat.zero_add]
  obtain ⟨fronts, piece, rests, hpieces, hle, hlt', hline⟩ :=
    exists_lineBeyond 1 (Nat.zero_le _) hwidth
  obtain ⟨-, -, body, ending, rfl, htext, hcut⟩ := pieces_cut hpieces
  rw [Nat.zero_add] at hle hlt' hline
  obtain ⟨lead, hbefore, hrest⟩ := exists_append_of_width_le htext.symm hle
  have hwidthLead : width before = width fronts.flatten + width lead := by
    rw [hbefore, width_append]
  obtain ⟨line, hpiece, hcharacter⟩ := exists_append_of_width_le hrest.symm (by omega)
  -- The line goes on beyond the place, so it goes on with the character.
  obtain ⟨rest, rfl⟩ : ∃ rest, line = c :: rest := by
    cases line with
    | nil =>
      rw [hpiece, List.append_nil] at hlt'
      omega
    | cons other rest =>
      obtain ⟨rfl, -⟩ := List.cons.inj hcharacter
      exact ⟨rest, rfl⟩
  have hending : ending = ['\n'] ∨ ending = [] := hcut.ending.imp_right And.left
  obtain ⟨tail, rfl, hnewline⟩ := exists_ending hc hcut.body hending hpiece.symm
  have hlead : '\n' ∉ lead := fun hmem => hnewline (List.mem_append_left _ hmem)
  refine ⟨1 + fronts.length, lead, tail, ending, ?_, hnewline, hending, ?_⟩
  · rw [lineAt, if_pos hlt, hline, hpiece, hwidthLead, Nat.add_sub_cancel_left]
  · unfold leading
    rw [hbefore, takeWhile_reverse_line hcut.front hlead]

end Source

namespace Diagnostic
open Text Source

/-- The text ends with a line that has the head of an arrow at column `arrow`, under a line that has
`c` at column `column`, right after `shown`. Columns are counted in characters. -/
def Points (text shown : List Char) (c : Char) (column arrow : Nat) : Prop :=
  ∃ upper margin rest shaft,
    text = upper ++ '\n' :: (margin ++ shown ++ c :: rest) ++ '\n' :: (shaft ++ ['^', '\n']) ∧
    '\n' ∉ margin ++ shown ++ c :: rest ∧ '\n' ∉ shaft ∧ '^' ∉ shaft ∧
    (margin ++ shown).length = column ∧ shaft.length = arrow

theorem isIndent_eq_false {c : Char} (hc : isBlank c = false) : isIndent c = false := by
  by_contra h
  rw [Bool.not_eq_false, isIndent, Bool.or_eq_true, beq_iff_eq, beq_iff_eq] at h
  rcases h with rfl | rfl
  · exact absurd hc (by decide)
  · exact absurd hc (by decide)

/-- As many bytes are left as are not taken off with the indentation, which has one for each of its
characters. -/
theorem width_sub_indentation (lead : List Char) :
    width lead - (lead.takeWhile isIndent).length = width (lead.dropWhile isIndent) := by
  have hindent : width (lead.takeWhile isIndent) = (lead.takeWhile isIndent).length := by
    rw [width_eq_length_iff]
    intro c hc
    have hblank := List.mem_takeWhile_imp hc
    rw [isIndent, Bool.or_eq_true, beq_iff_eq, beq_iff_eq] at hblank
    rcases hblank with rfl | rfl
    · rfl
    · rfl
  have hlead : width lead = width (lead.takeWhile isIndent) + width (lead.dropWhile isIndent) := by
    rw [← width_append, List.takeWhile_append_dropWhile]
  omega

theorem newline_notMem_trimEnd {tail ending : List Char} (htail : '\n' ∉ tail)
    (hending : ending = ['\n'] ∨ ending = []) : '\n' ∉ trimEnd (tail ++ ending) := by
  have htrim : trimEnd (tail ++ ending) = trimEnd tail := by
    rcases hending with rfl | rfl
    · have hreverse : (tail ++ ['\n']).reverse = '\n' :: tail.reverse := by simp
      unfold trimEnd
      rw [hreverse, List.dropWhile_cons_of_pos (by decide)]
    · rw [List.append_nil]
  intro hmem
  rw [htrim, trimEnd, List.mem_reverse] at hmem
  exact htail (List.mem_reverse.mp ((List.dropWhile_sublist _).subset hmem))

theorem excerpt_eq {number : Nat} {lead rest : List Char} {c : Char} (hc : isBlank c = false) :
    excerpt ⟨number, lead ++ c :: rest, width lead⟩ =
      List.replicate ((Nat.toDigits 10 number).length + 1) ' ' ++ ['|'] ++ '\n' ::
        (Nat.toDigits 10 number ++ " | ".toList ++ lead.dropWhile isIndent ++ c :: trimEnd rest) ++
        '\n' :: (List.replicate ((Nat.toDigits 10 number).length + 1) ' ' ++ "| ".toList ++
          List.replicate (width (lead.dropWhile isIndent)) '-' ++ ['^', '\n']) := by
  have hshown : (lead ++ c :: rest).dropWhile isIndent = lead.dropWhile isIndent ++ c :: rest :=
    dropWhile_append_cons (isIndent_eq_false hc) lead rest
  have hlength : lead.length = (lead.takeWhile isIndent).length + (lead.dropWhile isIndent).length := by
    rw [← List.length_append, List.takeWhile_append_dropWhile]
  have hremoved : (lead ++ c :: rest).length - (lead.dropWhile isIndent ++ c :: rest).length =
      (lead.takeWhile isIndent).length := by
    rw [List.length_append, List.length_append, List.length_cons]
    omega
  unfold excerpt
  change _ ++ ['\n'] ++ _ ++ _ ++ trimEnd ((lead ++ c :: rest).dropWhile isIndent) ++ _ ++ _ ++ _ ++
    List.replicate (width lead - ((lead ++ c :: rest).length -
      ((lead ++ c :: rest).dropWhile isIndent).length)) '-' ++ _ = _
  rw [hshown, hremoved, width_sub_indentation, trimEnd_append_cons hc]
  simp

theorem newline_notMem_shown (number : Nat) {lead tail ending : List Char} {c : Char}
    (hplain : '\n' ∉ lead ++ c :: tail) (hending : ending = ['\n'] ∨ ending = []) :
    '\n' ∉ Nat.toDigits 10 number ++ " | ".toList ++ lead.dropWhile isIndent ++
      c :: trimEnd (tail ++ ending) := by
  rw [List.mem_append, List.mem_cons, not_or, not_or] at hplain
  obtain ⟨hlead, hc, htail⟩ := hplain
  have hnumber : '\n' ∉ Nat.toDigits 10 number := by
    rw [← Nat.toList_repr]
    exact notMem_repr rfl number
  have hshown : '\n' ∉ lead.dropWhile isIndent :=
    fun hmem => hlead ((List.dropWhile_sublist _).subset hmem)
  have hrest := newline_notMem_trimEnd htail hending
  simp [hnumber, hshown, hc, hrest]

/-- The arrow is longer than what it goes under by as much as the text there has more bytes than
characters. So it points at the character it is about if and only if there is nothing but ASCII
before it on its line, the indentation apart. -/
theorem render_arrow {d : Diagnostic} {source : String} {before after : List Char} {c : Char}
    (hsource : source.toList = before ++ c :: after)
    (hoffset : width before = d.position.offset.toNat) (hc : isBlank c = false) :
    ∃ column arrow, Points (d.render source).toList (leading before) c column arrow ∧
      arrow + (leading before).length = column + width (leading before) ∧
      (arrow = column ↔ ∀ x ∈ leading before, isAscii x = true) := by
  have hnewline : c ≠ '\n' := by
    rintro rfl
    exact absurd hc (by decide)
  obtain ⟨number, lead, tail, ending, hline, hplain, hending, hleading⟩ :=
    lineAt_character hnewline
  have hrender : (d.render source).toList = heading d.cause ++ "-> ".toList ++
      d.position.file.toList ++ ['\n'] ++
        excerpt ⟨number, lead ++ c :: (tail ++ ending), width lead⟩ := by
    rw [render, String.toList_ofList, renderChars, hsource, ← hoffset, hline]
  rw [excerpt_eq hc] at hrender
  rw [← width_eq_length_iff, hleading]
  set digits := Nat.toDigits 10 number
  set shown := lead.dropWhile isIndent
  have hlength : (digits ++ " | ".toList ++ shown).length = digits.length + 3 + shown.length := by
    rw [List.length_append, List.length_append]
    rfl
  have hlength' : (List.replicate (digits.length + 1) ' ' ++ "| ".toList ++
      List.replicate (width shown) '-').length = digits.length + 3 + width shown := by
    rw [List.length_append, List.length_append, List.length_replicate, List.length_replicate]
    rfl
  refine ⟨(digits ++ " | ".toList ++ shown).length,
    (List.replicate (digits.length + 1) ' ' ++ "| ".toList ++
      List.replicate (width shown) '-').length,
    ⟨heading d.cause ++ "-> ".toList ++ d.position.file.toList ++ ['\n'] ++
        (List.replicate (digits.length + 1) ' ' ++ ['|']), digits ++ " | ".toList,
      trimEnd (tail ++ ending), List.replicate (digits.length + 1) ' ' ++ "| ".toList ++
        List.replicate (width shown) '-', ?_, newline_notMem_shown number hplain hending, ?_, ?_,
      rfl, rfl⟩, ?_, ?_⟩
  · rw [hrender]
    simp
  · simp [List.mem_replicate]
  · simp [List.mem_replicate]
  · rw [hlength, hlength']
    omega
  · rw [hlength, hlength']
    omega

theorem render_arrow_indented :
    let source := "let\n  var a := 1\nin\n  a + \"x\"\nend\n"
    let before := "let\n  var a := 1\nin\n  a + ".toList
    let d : Diagnostic := ⟨.typeMismatch "int" "string", ⟨26, "add.tig"⟩⟩
    source.toList = before ++ '"' :: "x\"\nend\n".toList ∧
      width before = d.position.offset.toNat ∧ isBlank '"' = false ∧
      leading before = "a + ".toList ∧
      ∃ column, Points (d.render source).toList (leading before) '"' column column := by
  intro source before d
  have hsource : source.toList = before ++ '"' :: "x\"\nend\n".toList := by decide +kernel
  have hoffset : width before = d.position.offset.toNat := by decide +kernel
  have hleading : leading before = "a + ".toList := by decide +kernel
  obtain ⟨column, arrow, hpoints, -, hsame⟩ := render_arrow hsource hoffset rfl
  rw [hleading] at hsame
  have hascii : "a + ".toList.all isAscii = true := by decide
  obtain rfl := hsame.mpr (List.all_eq_true.mp hascii)
  exact ⟨hsource, hoffset, rfl, hleading, arrow, hpoints⟩

/-- After a character of two bytes the arrow goes one column too far. -/
theorem render_arrow_beyond :
    let source := "/* é */ #"
    let before := "/* é */ ".toList
    let d : Diagnostic := ⟨.unrecognised "#", ⟨9, "lex.tig"⟩⟩
    source.toList = before ++ ['#'] ∧ width before = d.position.offset.toNat ∧
      isBlank '#' = false ∧
      ¬ ∃ column, Points (d.render source).toList (leading before) '#' column column := by
  intro source before d
  refine ⟨by decide +kernel, by decide +kernel, rfl, ?_⟩
  rintro ⟨column, upper, margin, rest, shaft, htext, hline, hshaft, -, hcolumn, harrow⟩
  have hknown : (d.render source).toList = "Error: UnrecognisedToken\n-> lex.tig\n  |".toList ++
      '\n' :: "1 | /* é */ #".toList ++ '\n' :: ("  | ---------".toList ++ ['^', '\n']) := by
    decide +kernel
  have hlines : "Error: UnrecognisedToken\n-> lex.tig\n  |".toList ++
      '\n' :: "1 | /* é */ #".toList ++ '\n' :: "  | ---------".toList =
        upper ++ '\n' :: (margin ++ leading before ++ '#' :: rest) ++ '\n' :: shaft := by
    apply List.append_cancel_right
    rw [hknown] at htext
    simpa only [List.append_assoc, List.cons_append] using htext
  obtain ⟨hupper, hlast⟩ := append_cons_inj_of_notMem_right (by decide) hshaft hlines
  obtain ⟨-, hshown⟩ := append_cons_inj_of_notMem_right (by decide) hline hupper
  have harrow' : column = 13 := by
    rw [← harrow, ← hlast]
    rfl
  have hlength := congrArg List.length hshown
  rw [List.length_append, hcolumn, List.length_cons] at hlength
  have hline' : "1 | /* é */ #".toList.length = 13 := by decide
  omega

end Diagnostic

end TigerLang
