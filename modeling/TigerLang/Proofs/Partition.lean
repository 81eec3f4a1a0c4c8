import Mathlib.Data.String.Basic
import TigerLang.Proofs.Lexicon
import TigerLang.Token.Scan

/-! The tokens of a source in their places: they follow each other, have the text that their spans
cover, are as long as they can be, and leave only white space and comments between them. -/

namespace TigerLang

namespace Text

theorem width_eq_utf8Len (cs : List Char) : width cs = String.utf8Len cs := by
  induction cs with
  | nil => rfl
  | cons c cs ih => rw [width_cons, ih, String.utf8Len_cons, Nat.add_comm]

theorem width_toList (s : String) : width s.toList = s.utf8ByteSize := by
  rw [width_eq_utf8Len, ← String.utf8ByteSize_ofList, String.ofList_toList]

/-- The part of the source from byte `start` to byte `stop`, both of which stand between
characters. -/
def Between (source : List Char) (start stop : Nat) (part : List Char) : Prop :=
  ∃ before after, source = before ++ (part ++ after) ∧ width before = start ∧
    start + width part = stop

theorem append_inj_of_width {before before' after after' : List Char}
    (h : before ++ after = before' ++ after') (hwidth : width before = width before') :
    before = before' ∧ after = after' := by
  induction before generalizing before' with
  | nil =>
    cases before' with
    | nil => exact ⟨rfl, h⟩
    | cons c before' =>
      have hpos := c.utf8Size_pos
      simp only [width_nil, width_cons] at hwidth
      omega
  | cons c before ih =>
    cases before' with
    | nil =>
      have hpos := c.utf8Size_pos
      simp only [width_nil, width_cons] at hwidth
      omega
    | cons d before' =>
      obtain ⟨rfl, htail⟩ := List.cons.inj h
      obtain ⟨rfl, hafter⟩ := ih htail (Nat.add_left_cancel hwidth)
      exact ⟨rfl, hafter⟩

theorem Between.append {source part part' : List Char} {start mid stop : Nat}
    (h : Between source start mid part) (h' : Between source mid stop part') :
    Between source start stop (part ++ part') := by
  obtain ⟨before, after, hsource, rfl, rfl⟩ := h
  obtain ⟨before', after', hsource', hwidth, rfl⟩ := h'
  have hsplit : (before ++ part) ++ after = before' ++ (part' ++ after') := by
    rw [List.append_assoc, ← hsource, hsource']
  obtain ⟨-, rfl⟩ := append_inj_of_width hsplit (by rw [width_append, hwidth])
  refine ⟨before, after', ?_, rfl, ?_⟩
  · rw [hsource, List.append_assoc]
  · rw [width_append, Nat.add_assoc]

end Text

namespace Token

def startByte (token : Token) : Nat := token.span.start.offset.toNat

def stopByte (token : Token) : Nat := token.span.stop.offset.toNat

def lastStop (prev : Nat) : List Token → Nat
  | [] => prev
  | token :: tokens => lastStop token.stopByte tokens

open Text Lexeme in
/-- From byte `prev` on the tokens are those of the source: they follow each other, the last and no
other is the end token, each has the text in the source that it stands for and is the longest lexeme
there, and what lies between them is white space and comments. -/
structure Partition (source : List Char) (file : String) (prev : Nat) (tokens : List Token) :
    Prop where
  file : ∀ token ∈ tokens, token.span.start.file = file ∧ token.span.stop.file = file
  forward : ∀ token ∈ tokens, prev ≤ token.startByte ∧ token.startByte ≤ token.stopByte
  ordered : tokens.Pairwise fun token later => token.stopByte ≤ later.startByte
  closed : ∃ before last, tokens = before ++ [last] ∧ last.kind = .eof ∧
    last.startByte = width source ∧ last.stopByte = width source ∧
    ∀ token ∈ before, token.kind ≠ .eof
  denotes : ∀ token ∈ tokens, ∃ text, Between source token.startByte token.stopByte text ∧
    (token.kind ≠ .eof → Denotes text token.kind token.value)
  longest : ∀ token ∈ tokens, ∀ lexeme stop, IsLexeme lexeme →
    Between source token.startByte stop lexeme → stop ≤ token.stopByte
  gaps : ∀ before token after, tokens = before ++ token :: after →
    ∃ gap, Between source (lastStop prev before) token.startByte gap ∧ Gap gap

open Text Lexeme

section steps
variable {source : List Char} {file : String} {prev : Nat} {tokens : List Token}

theorem offset_toNat {n : Nat} (h : n < 2 ^ 32) : (Position.ofOffset file n).offset.toNat = n :=
  Nat.mod_eq_of_lt h

theorem Partition.atEnd (hprev : prev = width source) (hsize : width source < 2 ^ 32) :
    Partition source file prev [atEnd (.ofOffset file prev)] := by
  have hstart : (Token.atEnd (.ofOffset file prev)).startByte = prev := offset_toNat (hprev ▸ hsize)
  have hstop : (Token.atEnd (.ofOffset file prev)).stopByte = prev := hstart
  have hend : Between source prev prev [] := ⟨source, [], by simp, hprev.symm, rfl⟩
  refine ⟨?_, ?_, List.pairwise_singleton _ _,
    ⟨[], Token.atEnd (.ofOffset file prev), rfl, rfl, ?_, ?_, List.forall_mem_nil _⟩, ?_, ?_, ?_⟩
  · simp [Token.atEnd, Position.ofOffset]
  · simp [hstart, hstop]
  · rw [hstart, hprev]
  · rw [hstop, hprev]
  · simp only [List.mem_singleton, forall_eq, hstart, hstop]
    exact ⟨[], hend, fun hne => absurd rfl hne⟩
  · simp only [List.mem_singleton, forall_eq, hstart, hstop]
    rintro lexeme stop _ ⟨before, after, hsource, hwidth, rfl⟩
    have htotal := congrArg width hsource
    simp only [width_append] at htotal
    omega
  · intro before token after htokens
    cases before with
    | nil =>
      obtain ⟨rfl, -⟩ := List.cons.inj htokens
      rw [hstart]
      exact ⟨[], hend, .none⟩
    | cons first before => simp at htokens

theorem Partition.gap {next : Nat} {gap : List Char} (h : Partition source file next tokens)
    (hbetween : Between source prev next gap) (hgap : Gap gap) :
    Partition source file prev tokens := by
  have hle : prev ≤ next := by
    obtain ⟨-, -, -, -, rfl⟩ := hbetween
    exact Nat.le_add_right _ _
  refine ⟨h.file, fun token htoken => ?_, h.ordered, h.closed, h.denotes, h.longest, ?_⟩
  · obtain ⟨hstart, hstop⟩ := h.forward token htoken
    exact ⟨Nat.le_trans hle hstart, hstop⟩
  · intro before token after htokens
    obtain ⟨gap', hbetween', hgap'⟩ := h.gaps before token after htokens
    cases before with
    | nil => exact ⟨gap ++ gap', hbetween.append hbetween', hgap.append hgap'⟩
    | cons first before => exact ⟨gap', hbetween', hgap'⟩

theorem stop_le_of_longest {before text rest lexeme : List Char} {stop : Nat}
    (hlongest : Longest text rest) (hlexeme : IsLexeme lexeme)
    (hbetween : Between (before ++ (text ++ rest)) (width before) stop lexeme) :
    stop ≤ width before + width text := by
  obtain ⟨before', after, hsource, hwidth, rfl⟩ := hbetween
  obtain ⟨rfl, hrest⟩ := append_inj_of_width hsource hwidth.symm
  have hfront : lexeme <+: text ++ rest := hrest ▸ List.prefix_append lexeme after
  have hle : lexeme <+: text :=
    List.prefix_of_prefix_length_le hfront (List.prefix_append text rest)
      (hlongest lexeme hlexeme hfront)
  obtain ⟨tail, rfl⟩ := hle
  rw [width_append]
  omega

theorem Partition.token {before text rest : List Char} {kind : TokenKind} {value : String}
    (hsource : source = before ++ (text ++ rest)) (hsize : width source < 2 ^ 32)
    (hdenotes : Denotes text kind value) (hlongest : Longest text rest)
    (h : Partition source file (width before + width text) tokens) :
    Partition source file (width before)
      (⟨kind, value, .ofWidth file (width before) (width text)⟩ :: tokens) := by
  have hwidth : width source = width before + (width text + width rest) := by
    rw [hsource, width_append, width_append]
  have hstart : Token.startByte ⟨kind, value, .ofWidth file (width before) (width text)⟩ =
      width before := offset_toNat (by omega)
  have hstop : Token.stopByte ⟨kind, value, .ofWidth file (width before) (width text)⟩ =
      width before + width text := offset_toNat (by omega)
  constructor
  · exact List.forall_mem_cons.mpr ⟨⟨rfl, rfl⟩, h.file⟩
  · refine List.forall_mem_cons.mpr ⟨?_, fun token htoken => ?_⟩
    · rw [hstart, hstop]
      exact ⟨Nat.le_refl _, Nat.le_add_right _ _⟩
    · obtain ⟨hle, hle'⟩ := h.forward token htoken
      exact ⟨Nat.le_trans (Nat.le_add_right _ _) hle, hle'⟩
  · refine List.pairwise_cons.mpr ⟨fun token htoken => ?_, h.ordered⟩
    rw [hstop]
    exact (h.forward token htoken).1
  · obtain ⟨others, last, rfl, hlast⟩ := h.closed
    refine ⟨_ :: others, last, rfl, hlast.1, hlast.2.1, hlast.2.2.1, ?_⟩
    exact List.forall_mem_cons.mpr ⟨hdenotes.ne_eof, hlast.2.2.2⟩
  · refine List.forall_mem_cons.mpr ⟨⟨text, ?_, fun _ => hdenotes⟩, h.denotes⟩
    rw [hstart, hstop]
    exact ⟨before, rest, hsource, rfl, rfl⟩
  · refine List.forall_mem_cons.mpr ⟨fun lexeme stop hlexeme hbetween => ?_, h.longest⟩
    rw [hstart, hsource] at hbetween
    rw [hstop]
    exact stop_le_of_longest hlongest hlexeme hbetween
  · intro others token after htokens
    cases others with
    | nil =>
      obtain ⟨rfl, -⟩ := List.cons.inj htokens
      rw [hstart]
      exact ⟨[], ⟨before, text ++ rest, hsource, rfl, rfl⟩, .none⟩
    | cons first others =>
      obtain ⟨rfl, htail⟩ := List.cons.inj htokens
      rw [lastStop, hstop]
      exact h.gaps others token after htail

end steps

theorem partition_scanFrom {source before text : List Char} {file : String} {tokens : List Token}
    (hsource : source = before ++ text) (hsize : width source < 2 ^ 32)
    (h : scanFrom file (width before) text = .ok tokens) :
    Partition source file (width before) tokens := by
  induction hlength : text.length using Nat.strongRecOn generalizing before text tokens with
  | _ m ih =>
    cases text with
    | nil =>
      unfold scanFrom at h
      cases h
      exact .atEnd (by rw [hsource, List.append_nil]) hsize
    | cons c cs =>
      unfold scanFrom at h
      split at h
      · cases h
      · next lexeme hread =>
        have htext := Lexeme.text_append_rest hread
        have hrest := Lexeme.rest_length_lt hread
        have hsource' : source = (before ++ lexeme.text) ++ lexeme.rest := by
          rw [hsource, List.append_assoc, htext]
        dsimp only at h
        rw [← width_append] at h
        cases hscan : scanFrom file (width (before ++ lexeme.text)) lexeme.rest with
        | error d =>
          rw [hscan] at h
          cases h
        | ok tokens' =>
          rw [hscan] at h
          have htokens := ih _ (hlength ▸ hrest) hsource' hscan rfl
          have hisRead := Lexeme.isRead hread
          rw [width_append] at htokens
          rw [List.append_assoc] at hsource'
          cases htoken : lexeme.token with
          | none =>
            rw [htoken] at h
            cases h
            exact htokens.gap ⟨before, lexeme.rest, hsource', rfl, rfl⟩ (hisRead.gap_of_none htoken)
          | some labelled =>
            obtain ⟨kind, value⟩ := labelled
            rw [htoken] at h
            cases h
            have hlongest := hisRead.longest htext (by simp [htoken])
            exact .token hsource' hsize (hisRead.denotes htoken) hlongest htokens

/-- The tokens of a source that can be scanned lie in it as they should, and all else in it is white
space and comments. -/
theorem scan_partition {source file : String} {tokens : List Token}
    (hsize : source.utf8ByteSize < 2 ^ 32) (h : scan source file = .ok tokens) :
    Partition source.toList file 0 tokens := by
  rw [← width_toList] at hsize
  have hstart : scanFrom file (width []) source.toList = .ok tokens := h
  exact partition_scanFrom (List.nil_append source.toList).symm hsize hstart

def mixedSource : String :=
  "if /* a /* é */ / * */ x_1 <= 10/2 then \"é\\t\\065\\\"\" <> y:=[z]"

theorem scan_partition_mixed : mixedSource.utf8ByteSize < 2 ^ 32 ∧
    ∃ tokens, scan mixedSource "mixed.tig" = .ok tokens ∧
      tokens.map Token.kind = [.ifWord, .identifier, .lessEquals, .number, .slash, .number, .thenWord,
        .string, .notEquals, .identifier, .assignment, .openBracket, .identifier, .closeBracket, .eof] ∧
      Partition mixedSource.toList "mixed.tig" 0 tokens := by
  have hsize : mixedSource.utf8ByteSize < 2 ^ 32 := by decide +kernel
  have hkinds : (scan mixedSource "mixed.tig").toOption.map (List.map Token.kind) =
      some [.ifWord, .identifier, .lessEquals, .number, .slash, .number, .thenWord,
        .string, .notEquals, .identifier, .assignment, .openBracket, .identifier, .closeBracket, .eof] := by
    decide +kernel
  cases hscan : scan mixedSource "mixed.tig" with
  | error d =>
    rw [hscan] at hkinds
    cases hkinds
  | ok tokens =>
    rw [hscan] at hkinds
    exact ⟨hsize, tokens, rfl, Option.some.inj hkinds, scan_partition hsize hscan⟩

end Token

end TigerLang
