import TigerLang.Proofs.StringLiterals

/-! Where scanning fails: after a beginning of the source that can be scanned by itself, and at what
is reported, which is a character that no lexeme opens with, a comment without an end, or a literal
with an escape that is none. -/

namespace TigerLang

namespace Lexeme
open Literal

inductive Culprit : List Char → Cause → Prop
  | character {c : Char} {cs : List Char} (h : ∀ lexeme, IsLexeme lexeme → ¬ lexeme <+: c :: cs) :
    Culprit (c :: cs) (.unrecognised (String.singleton c))
  | comment {cs : List Char} (h : ∀ text, Comment.IsComment text → ¬ text <+: '/' :: '*' :: cs) :
    Culprit ('/' :: '*' :: cs) .unterminatedComment
  | literal {front value escape back after : List Char} {message : String}
    (hinner : Inner (front ++ (escape ++ back))) (hfront : Spells front value)
    (hescape : BadEscape escape back message) :
    Culprit (enclosed (front ++ (escape ++ back)) ++ after)
      (.unexpectedBecause (String.ofList escape) message)

section refusing
variable {c : Char} {cs : List Char}

theorem not_prefix_of_quote (hbody : body cs = none) {lexeme : List Char} (h : IsLexeme lexeme) :
    ¬ lexeme <+: '"' :: cs := by
  intro hfront
  rcases h.opens hfront with
    hgap | ⟨halpha, -⟩ | ⟨hdigit, -⟩ | ⟨-, inner, rest, hclosed, -⟩ | ⟨⟨-, -, hne⟩, -⟩
  · exact hgap ⟨by decide, by simp⟩
  · exact absurd halpha (by decide)
  · exact absurd hdigit (by decide)
  · rw [hbody] at hclosed
    cases hclosed
  · exact hne rfl

theorem not_prefix_of_mark (hgap : NoGap c cs) (halpha : c.isAlpha = false)
    (hdigit : c.isDigit = false) (hquote : c ≠ '"')
    (hfind : (marks.find? fun (mark, _) => mark.isPrefixOf (c :: cs)) = none)
    {lexeme : List Char} (h : IsLexeme lexeme) : ¬ lexeme <+: c :: cs := by
  intro hfront
  rcases h.opens hfront with hno | ⟨halpha', -⟩ | ⟨hdigit', -⟩ | ⟨hquote', -⟩ | ⟨-, kind, hmark⟩
  · exact hno hgap
  · rw [halpha] at halpha'
    cases halpha'
  · rw [hdigit] at hdigit'
    cases hdigit'
  · exact hquote hquote'
  · have hnot := List.find?_eq_none.mp hfind _ hmark
    exact hnot (List.isPrefixOf_iff_prefix.mpr hfront)

theorem IsRefused.culprit {cause : Cause} (h : IsRefused c cs cause) : Culprit (c :: cs) cause := by
  cases h with
  | comment hslash hstar hlength =>
    subst hslash
    obtain ⟨rest, rfl⟩ := List.head?_eq_some_iff.mp hstar
    refine .comment fun text htext ⟨after, hafter⟩ => ?_
    rw [← hafter, Comment.length_append htext] at hlength
    cases hlength
  | @literal inner rest _ hquote hbody hdecode =>
    have hinner := inner_of_body hbody
    obtain ⟨front, value, escape, back, message, rfl, hfront, hescape, rfl⟩ :=
      badEscape_of_decode hinner hdecode
    have htext : c :: cs = enclosed (front ++ (escape ++ back)) ++ rest := by
      rw [hquote, append_of_body hbody]
      simp [enclosed]
    rw [htext]
    exact .literal hinner hfront hescape
  | quote hquote hbody =>
    subst hquote
    exact .character fun lexeme => not_prefix_of_quote hbody
  | mark hgap halpha hdigit hquote hfind =>
    exact .character fun lexeme => not_prefix_of_mark hgap halpha hdigit hquote hfind

end refusing

end Lexeme

namespace Token
open Text Lexeme

/-- The diagnostic is about the file and a place inside the source, between two characters. What
comes before it can be scanned by itself, and what comes after it opens with what is at fault. -/
structure Located (source file : String) (d : Diagnostic) : Prop where
  about : d.position.file = file
  inside : d.position.offset.toNat < source.utf8ByteSize
  culprit : ∃ before rest, source.toList = before ++ rest ∧
    width before = d.position.offset.toNat ∧
    (∃ tokens, scan (String.ofList before) file = .ok tokens) ∧ Culprit rest d.cause

/-- A scan fails after all that can be scanned, at what it reports. -/
theorem scan_located {source file : String} {d : Diagnostic} (hsize : source.utf8ByteSize < 2 ^ 32)
    (h : scan source file = .error d) : Located source file d := by
  obtain ⟨before, c, cs, hsource, hbefore, hread, hposition⟩ := scanFrom_stops h
  have hinside : width before < source.utf8ByteSize := by
    have hpos := c.utf8Size_pos
    rw [← width_toList, hsource, width_append, width_cons]
    omega
  have hoffset : d.position.offset.toNat = width before := by
    rw [hposition, Nat.zero_add]
    exact offset_toNat (Nat.lt_trans hinside hsize)
  refine ⟨by rw [hposition]; rfl, hoffset ▸ hinside, before, c :: cs, hsource, hoffset.symm, ?_,
    (isRefused hread).culprit⟩
  rwa [scan, String.toList_ofList]

theorem scan_located_everyCause :
    (∃ d, scan "\"é\" := \"a" "a.tig" = .error d ∧ d = ⟨.unrecognised "\"", ⟨8, "a.tig"⟩⟩ ∧
      Located "\"é\" := \"a" "a.tig" d) ∧
    (∃ d, scan "x /* é /* */" "a.tig" = .error d ∧ d = ⟨.unterminatedComment, ⟨2, "a.tig"⟩⟩ ∧
      Located "x /* é /* */" "a.tig" d) ∧
    ∃ d, scan "f(\"é\\128\")" "a.tig" = .error d ∧ d = ⟨.unexpectedBecause "\\128"
        "character codes are three digits up to 127", ⟨2, "a.tig"⟩⟩ ∧
      Located "f(\"é\\128\")" "a.tig" d := by
  have hquote : scan "\"é\" := \"a" "a.tig" = .error ⟨.unrecognised "\"", ⟨8, "a.tig"⟩⟩ := by
    decide +kernel
  have hcomment : scan "x /* é /* */" "a.tig" = .error ⟨.unterminatedComment, ⟨2, "a.tig"⟩⟩ := by
    decide +kernel
  have hescape : scan "f(\"é\\128\")" "a.tig" = .error ⟨.unexpectedBecause "\\128"
      "character codes are three digits up to 127", ⟨2, "a.tig"⟩⟩ := by
    decide +kernel
  exact ⟨⟨_, hquote, rfl, scan_located (by decide +kernel) hquote⟩,
    ⟨_, hcomment, rfl, scan_located (by decide +kernel) hcomment⟩,
    ⟨_, hescape, rfl, scan_located (by decide +kernel) hescape⟩⟩

end Token

end TigerLang
