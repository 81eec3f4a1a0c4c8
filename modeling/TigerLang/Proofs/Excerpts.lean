import TigerLang.Analysis
import TigerLang.Diagnostic.Render
import TigerLang.Proofs.Arrows
import TigerLang.Proofs.Blame
import TigerLang.Proofs.EarliestFailure
import TigerLang.Proofs.Separation

/-! Whatever is reported about a source can be shown in it: every report has a place between two
characters, which is on one of the lines if there are any. -/

namespace TigerLang

namespace Diagnostic
open Text Source

/-- The picture of a line shows its number and what is on it, without the indentation and the white
space at the end. Under it an arrow goes from where the indentation ends to the column. -/
def Pictured (line : Source.Line) (picture : List Char) : Prop :=
  ∃ indentation shown blanks margin, line.text = indentation ++ shown ++ blanks ∧
    (∀ c ∈ indentation, isIndent c = true) ∧ (∀ c ∈ shown.head?, isIndent c = false) ∧
    (∀ c ∈ shown.getLast?, isBlank c = false) ∧ (∀ c ∈ blanks, isBlank c = true) ∧
    '\n' ∉ shown ∧
    margin = List.replicate ((Nat.toDigits 10 line.number).length + 1) ' ' ∧
    picture = margin ++ ['|'] ++
      '\n' :: (Nat.toDigits 10 line.number ++ " | ".toList ++ shown) ++
      '\n' :: (margin ++ "| ".toList ++
        List.replicate (line.column - indentation.length) '-' ++ ['^', '\n'])

theorem exists_trimEnd (text : List Char) :
    ∃ blanks, text = trimEnd text ++ blanks ∧ (∀ c ∈ blanks, isBlank c = true) ∧
      ∀ c ∈ (trimEnd text).getLast?, isBlank c = false := by
  refine ⟨(text.reverse.takeWhile isBlank).reverse, ?_, fun c hc => ?_, fun c hc => ?_⟩
  · unfold trimEnd
    rw [← List.reverse_append, List.takeWhile_append_dropWhile, List.reverse_reverse]
  · exact List.mem_takeWhile_imp (List.mem_reverse.mp hc)
  · rw [trimEnd, List.getLast?_reverse] at hc
    have hhead := List.head?_dropWhile_not isBlank text.reverse
    rw [Option.mem_def.mp hc] at hhead
    simpa using hhead

theorem newline_notMem_trimEnd_dropWhile {text : List Char} (h : OneLine text) :
    '\n' ∉ trimEnd (text.dropWhile isIndent) := by
  obtain ⟨body, ending, rfl, hbody, hending⟩ := h
  have hkept : ending.dropWhile isIndent = ending := by
    rcases hending with rfl | rfl
    · rfl
    · rfl
  have hdrop : (body ++ ending).dropWhile isIndent = body.dropWhile isIndent ++ ending := by
    rw [List.dropWhile_append]
    split
    · next hempty => rw [List.isEmpty_iff.mp hempty, List.nil_append, hkept]
    · rfl
  rw [hdrop]
  exact newline_notMem_trimEnd (fun hmem => hbody ((List.dropWhile_sublist _).subset hmem)) hending

theorem excerpt_pictured {line : Source.Line} (h : OneLine line.text) :
    Pictured line (excerpt line) := by
  obtain ⟨blanks, hblanks, hall, hlast⟩ := exists_trimEnd (line.text.dropWhile isIndent)
  have htext : line.text = line.text.takeWhile isIndent ++ line.text.dropWhile isIndent :=
    List.takeWhile_append_dropWhile.symm
  have hhead : ∀ c ∈ (trimEnd (line.text.dropWhile isIndent)).head?, isIndent c = false := by
    intro c hc
    have hhead := List.head?_dropWhile_not isIndent line.text
    rw [hblanks, List.head?_append, Option.mem_def.mp hc] at hhead
    simpa using hhead
  have hremoved : line.text.length - (line.text.dropWhile isIndent).length =
      (line.text.takeWhile isIndent).length := by
    have hlength := congrArg List.length htext
    rw [List.length_append] at hlength
    omega
  refine ⟨line.text.takeWhile isIndent, trimEnd (line.text.dropWhile isIndent), blanks, _,
    by rw [List.append_assoc, ← hblanks, ← htext], fun c hc => List.mem_takeWhile_imp hc, hhead,
    hlast, hall, newline_notMem_trimEnd_dropWhile h, rfl, ?_⟩
  unfold excerpt
  change _ ++ ['\n'] ++ _ ++ _ ++ trimEnd (line.text.dropWhile isIndent) ++ _ ++ _ ++ _ ++
    List.replicate (line.column - (line.text.length - (line.text.dropWhile isIndent).length)) '-' ++
      _ = _
  rw [hremoved]
  simp

end Diagnostic

/-- The diagnostic is about the file and has an offset between two characters of the source. If the
source can be scanned, a token starts there, and if it is not empty, there is a line at the offset,
which is shown with an arrow under it. -/
structure Diagnostic.Shown (source file : String) (d : Diagnostic) : Prop where
  about : d.position.file = file
  boundary : ∃ before after, source.toList = before ++ after ∧
    Text.width before = d.position.offset.toNat
  inside : d.position.offset.toNat ≤ source.utf8ByteSize
  token : ∀ tokens, Token.scan source file = .ok tokens →
    ∃ token ∈ tokens, d.position = token.span.start
  line : source ≠ "" → ∃ line picture,
    Source.lineAt source.toList d.position.offset.toNat = some line ∧
    line.IsAt source.toList d.position.offset.toNat ∧ Diagnostic.Pictured line picture ∧
    (d.render source).toList =
      Diagnostic.heading d.cause ++ "-> ".toList ++ file.toList ++ '\n' :: picture

theorem Diagnostic.Shown.of_boundary {source file : String} {d : Diagnostic}
    (hfile : d.position.file = file) {before after : List Char}
    (hsource : source.toList = before ++ after)
    (hoffset : Text.width before = d.position.offset.toNat)
    (htoken : ∀ tokens, Token.scan source file = .ok tokens →
      ∃ token ∈ tokens, d.position = token.span.start) : d.Shown source file := by
  have hle : d.position.offset.toNat ≤ Text.width source.toList := by
    rw [hsource, Text.width_append, hoffset]
    exact Nat.le_add_right _ _
  refine ⟨hfile, ⟨before, after, hsource, hoffset⟩, Text.width_toList source ▸ hle, htoken,
    fun hne => ?_⟩
  have hne' : source.toList ≠ [] := by simpa using hne
  obtain ⟨line, hline, hat, hone⟩ := Source.exists_lineAt hne' hle
  refine ⟨line, Diagnostic.excerpt line, hline, hat, Diagnostic.excerpt_pictured hone, ?_⟩
  rw [Diagnostic.render, String.toList_ofList, renderChars, hline, hfile]
  simp

theorem Diagnostic.Shown.of_token {source file : String} {tokens : List Token} {d : Diagnostic}
    (hscan : Token.scan source file = .ok tokens)
    (hpartition : Token.Partition source.toList file 0 tokens) {token : Token}
    (htoken : token ∈ tokens) (hposition : d.position = token.span.start) :
    d.Shown source file := by
  obtain ⟨text, ⟨before, after, hsource, hwidth, -⟩, -⟩ := hpartition.denotes token htoken
  refine .of_boundary (hposition ▸ (hpartition.file token htoken).1) hsource
    (hposition ▸ hwidth) fun tokens' hscan' => ?_
  obtain rfl := Except.ok.inj (hscan.symm.trans hscan')
  exact ⟨token, htoken, hposition⟩

theorem Cursor.Reaches.current_mem {s s' : Cursor} {read : List Token} (h : s.Reaches read s') :
    s'.current ∈ s.ahead := by
  rw [h.ahead]
  exact List.mem_append_right read List.mem_cons_self

section parse
variable {source file : String} {tokens : List Token}

theorem parse_error_starts (hclosed : ∃ before last, tokens = before ++ [last] ∧ last.kind = .eof)
    {d : Diagnostic} (h : (parse file tokens).1 = .error d) :
    ∃ token ∈ tokens, d.position = token.span.start := by
  obtain ⟨before, last, rfl, hlast⟩ := hclosed
  obtain ⟨read, hcourse⟩ := Parser.program_tracked _ (Cursor.ofTokens file (before ++ [last]))
    (Nat.lt_succ_self _) trivial
  have hmem := hcourse.reaches.current_mem
  rw [Cursor.ahead_ofTokens_concat file before hlast] at hmem
  exact ⟨_, hmem, hcourse.position d h⟩

theorem parse_phrase_starts (hpartition : Token.Partition source.toList file 0 tokens) {e : Exp}
    (h : (parse file tokens).1 = .ok e) {q : Phrase} (hq : q.Inside (.exp e)) :
    ∃ token ∈ tokens, q.span.start = token.span.start := by
  obtain ⟨hbefore, k, l, -, -, hcovers⟩ := parse_stands h
  obtain ⟨before, last, rfl, hlast, -⟩ := hpartition.closed
  have htokens : (parse file (before ++ [last])).2.tokens = before ++ [last] := by
    rw [hbefore.tokens, Cursor.tokens_ofTokens hlast]
  rw [← htokens]
  refine (hcovers.laid ?_ q hq).start
  rw [htokens]
  exact ⟨fun token htoken => (hpartition.forward token htoken).2, hpartition.ordered⟩

end parse

/-- All that is reported about a source can be shown in it. -/
theorem ofSource_shown {source file : String} (hsize : source.utf8ByteSize < 2 ^ 32)
    {d : Diagnostic} (hd : d ∈ (Analysis.ofSource source file).diagnostics) :
    d.Shown source file := by
  rw [← Text.width_toList] at hsize
  unfold Analysis.ofSource at hd
  split at hd
  -- There are no tokens, so the place is known from how far the scanner came.
  · next d' hscan =>
    obtain rfl := List.mem_singleton.mp hd
    have hstart : Token.scanFrom file (Text.width []) source.toList = .error d := hscan
    obtain ⟨scanned, rest, hsource, -, hposition⟩ := Token.scanFrom_error hstart
    rw [hsource, Text.width_append] at hsize
    refine .of_boundary (by rw [hposition]; rfl) hsource ?_ fun tokens htokens => ?_
    · have hinside : Text.width ([] ++ scanned) < 2 ^ 32 := by
        simpa using Nat.lt_of_le_of_lt (Nat.le_add_right _ _) hsize
      rw [hposition, Token.offset_toNat hinside]
      simp
    · rw [hscan] at htokens
      cases htokens
  · next tokens hscan =>
    have hpartition := Token.partition_scanFrom (List.nil_append source.toList).symm hsize hscan
    -- All other reports are made at a token, by the parser or at the start of a phrase.
    suffices h : ∃ token ∈ tokens, d.position = token.span.start by
      obtain ⟨token, htoken, hposition⟩ := h
      exact .of_token hscan hpartition htoken hposition
    dsimp only at hd
    split at hd
    · next d' hparse =>
      obtain rfl := List.mem_singleton.mp hd
      obtain ⟨before, last, htokens, hlast, -⟩ := hpartition.closed
      exact parse_error_starts ⟨before, last, htokens, hlast⟩ hparse
    · next e hparse =>
      have hd : d ∈ (check e).diagnostics := by
        split at hd
        · cases hd
        · exact Array.mem_toList_iff.mp hd
      obtain ⟨q, hq, hposition⟩ :=
        ((check_honest (parse_given hparse).nodup).justified d hd).starts
      obtain ⟨token, htoken, hstart⟩ := parse_phrase_starts hpartition hparse hq
      exact ⟨token, htoken, hposition.trans hstart⟩

theorem ofSource_shown_twoBytes :
    ("\"é\" = z".utf8ByteSize < 2 ^ 32 ∧
      (Analysis.ofSource "\"é\" = z" "a.tig").diagnostics =
        [⟨.undefinedName .variable "z", ⟨7, "a.tig"⟩⟩] ∧
      Diagnostic.Shown "\"é\" = z" "a.tig" ⟨.undefinedName .variable "z", ⟨7, "a.tig"⟩⟩) ∧
    "\"é\" =\n".utf8ByteSize < 2 ^ 32 ∧
      (Analysis.ofSource "\"é\" =\n" "a.tig").diagnostics = [⟨.unexpected "EOF", ⟨7, "a.tig"⟩⟩] ∧
      Diagnostic.Shown "\"é\" =\n" "a.tig" ⟨.unexpected "EOF", ⟨7, "a.tig"⟩⟩ := by
  obtain ⟨hname, hname', hend, hend'⟩ : "\"é\" = z".utf8ByteSize < 2 ^ 32 ∧
      (Analysis.ofSource "\"é\" = z" "a.tig").diagnostics =
        [⟨.undefinedName .variable "z", ⟨7, "a.tig"⟩⟩] ∧
      "\"é\" =\n".utf8ByteSize < 2 ^ 32 ∧
      (Analysis.ofSource "\"é\" =\n" "a.tig").diagnostics =
        [⟨.unexpected "EOF", ⟨7, "a.tig"⟩⟩] := by
    decide +kernel
  exact ⟨⟨hname, hname', ofSource_shown hname (hname' ▸ List.mem_singleton_self _)⟩, hend, hend',
    ofSource_shown hend (hend' ▸ List.mem_singleton_self _)⟩

end TigerLang
