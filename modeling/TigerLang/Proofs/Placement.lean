import TigerLang.Proofs.Layout

/-! How the nodes of a program are numbered, and where its phrases stand in the source. -/

namespace TigerLang

namespace Phrase

theorem id_mem_ids {p q : Phrase} (h : q.Inside p) {id : Nat} (hid : id ∈ q.id?) : id ∈ p.ids := by
  induction h with
  | refl =>
    rw [ids_eq]
    exact List.mem_append_left _ (Option.mem_toList.mpr hid)
  | tail _ hchild ih =>
    rw [ids_eq]
    exact List.mem_append_right _ (List.mem_flatMap.mpr ⟨_, hchild, ih⟩)

end Phrase

/-- All nodes of a program have numbers of their own, and each has a greater one than those below
it. -/
theorem parse_ids_ascend {file : String} {tokens : List Token} {e : Exp}
    (h : (parse file tokens).1 = .ok e) :
    e.ids.Nodup ∧ (∀ id ∈ e.ids, id < (parse file tokens).2.nextId) ∧
      ∀ p : Phrase, p.Inside (.exp e) → ∀ id ∈ p.id?, id ∈ e.ids ∧
        ∀ c ∈ p.children, ∀ q : Phrase, q.Inside c → ∀ below ∈ q.id?, below < id := by
  have hgiven := parse_given h
  obtain ⟨-, k, l, -, -, hcovers⟩ := parse_stands h
  refine ⟨hgiven.nodup, hgiven.below, fun p hp id hid => ⟨Phrase.id_mem_ids hp hid, ?_⟩⟩
  intro c hc q hq below hbelow
  exact hcovers.ascending p hp id hid c hc below (Phrase.id_mem_ids hq hbelow)

/-- A number is drawn for the variable `t` in front of the bracket and never used. -/
def arraySource : String := "let type t = array of int var a := t[2] of -1 in a[0] & a[1] end"

def arrayTokens : List Token := (Token.scan arraySource "array.tig").toOption.getD []

def arrayProgram : Exp := (parse "array.tig" arrayTokens).1.toOption.getD default

theorem parse_ids_ascend_array : ∃ e, (parse "array.tig" arrayTokens).1 = .ok e ∧
    e.ids.length = 18 ∧ (parse "array.tig" arrayTokens).2.nextId = 19 ∧ e.ids.Nodup ∧
    ∀ p : Phrase, p.Inside (.exp e) → ∀ id ∈ p.id?, id ∈ e.ids ∧
      ∀ c ∈ p.children, ∀ q : Phrase, q.Inside c → ∀ below ∈ q.id?, below < id := by
  obtain ⟨hok, hlength, hnext⟩ : (parse "array.tig" arrayTokens).1.isOk = true ∧
      arrayProgram.ids.length = 18 ∧ (parse "array.tig" arrayTokens).2.nextId = 19 := by
    decide +kernel
  have hparse : (parse "array.tig" arrayTokens).1 = .ok arrayProgram := parse_eq_ok_getD hok
  obtain ⟨hnodup, -, hascend⟩ := parse_ids_ascend hparse
  exact ⟨arrayProgram, hparse, hlength, hnext, hnodup, hascend⟩

theorem Cursor.tokens_ofTokens {file : String} {before : List Token} {last : Token}
    (h : last.kind = .eof) : (Cursor.ofTokens file (before ++ [last])).tokens = before ++ [last] := by
  cases before with
  | nil => simp [ofTokens, tokens, ahead, closeAfter, h]
  | cons token before => simp [ofTokens, tokens, ahead, closeAfter, h]

/-- Every phrase of a program starts and stops with a token and lies within the phrase around it.
None stops before it starts, except for the body of a `let` that has no text. -/
theorem parse_laid {source file : String} {tokens : List Token} {e : Exp}
    (hsize : source.utf8ByteSize < 2 ^ 32) (hscan : Token.scan source file = .ok tokens)
    (hparse : (parse file tokens).1 = .ok e) :
    (Phrase.exp e).startByte ≤ (Phrase.exp e).stopByte ∧
      ∀ p : Phrase, p.Inside (.exp e) → p.Laid tokens := by
  rw [← Text.width_toList] at hsize
  have hpartition := Token.partition_scanFrom (List.nil_append source.toList).symm hsize hscan
  have hordered : Token.Ordered tokens :=
    ⟨fun token htoken => (hpartition.forward token htoken).2, hpartition.ordered⟩
  obtain ⟨hbefore, k, l, -, hkl, hcovers⟩ := parse_stands hparse
  have htokens : (parse file tokens).2.tokens = tokens := by
    obtain ⟨before, last, rfl, hlast, -⟩ := hpartition.closed
    rw [hbefore.tokens, Cursor.tokens_ofTokens hlast]
  obtain ⟨first, hfirst, hstart⟩ := hcovers.start
  obtain ⟨last, hlast, hstop⟩ := hcovers.stop
  rw [htokens] at hfirst hlast
  refine ⟨?_, ?_⟩
  · rw [Phrase.startByte, Phrase.stopByte, hstart, hstop]
    exact hordered.start_le_stop hkl hfirst hlast
  · rw [← htokens] at hordered ⊢
    exact hcovers.laid hordered

def groupedSource : String :=
  "let type r = \x7ba: int\x7d in (-(1); let in end; r \x7ba = 2\x7d) end"

def groupedTokens : List Token := (Token.scan groupedSource "grouped.tig").toOption.getD []

def groupedProgram : Exp := (parse "grouped.tig" groupedTokens).1.toOption.getD default

theorem parse_laid_grouped : groupedSource.utf8ByteSize < 2 ^ 32 ∧
    Token.scan groupedSource "grouped.tig" = .ok groupedTokens ∧
    (parse "grouped.tig" groupedTokens).1 = .ok groupedProgram ∧
    (Phrase.exp groupedProgram).startByte = 0 ∧ (Phrase.exp groupedProgram).stopByte = 58 ∧
    ∀ p : Phrase, p.Inside (.exp groupedProgram) → p.Laid groupedTokens := by
  obtain ⟨hsize, hscan, hok, hstart, hstop⟩ : groupedSource.utf8ByteSize < 2 ^ 32 ∧
      Token.scan groupedSource "grouped.tig" = .ok groupedTokens ∧
      (parse "grouped.tig" groupedTokens).1.isOk = true ∧
      (Phrase.exp groupedProgram).startByte = 0 ∧ (Phrase.exp groupedProgram).stopByte = 58 := by
    decide +kernel
  have hparse : (parse "grouped.tig" groupedTokens).1 = .ok groupedProgram := parse_eq_ok_getD hok
  exact ⟨hsize, hscan, hparse, hstart, hstop, (parse_laid hsize hscan hparse).2⟩

def emptyLetTokens : List Token := (Token.scan "let in end" "shell").toOption.getD []

def emptyLet : Exp := (parse "shell" emptyLetTokens).1.toOption.getD default

/-- The body that has no text starts at byte 7, with `end`, and stops before byte 6, after `in`. -/
theorem parse_emptyLet_reversed :
    Token.scan "let in end" "shell" = .ok emptyLetTokens ∧
    (parse "shell" emptyLetTokens).1 = .ok emptyLet ∧
    ∃ c ∈ (Phrase.exp emptyLet).children, c.startByte = 7 ∧ c.stopByte = 6 := by
  obtain ⟨hscan, hok, hany⟩ : Token.scan "let in end" "shell" = .ok emptyLetTokens ∧
      (parse "shell" emptyLetTokens).1.isOk = true ∧
      emptyLet.children.any (fun c => c.startByte == 7 && c.stopByte == 6) = true := by
    decide +kernel
  have hparse : (parse "shell" emptyLetTokens).1 = .ok emptyLet := parse_eq_ok_getD hok
  obtain ⟨c, hc, hbytes⟩ := List.any_eq_true.mp hany
  simp only [Bool.and_eq_true, beq_iff_eq] at hbytes
  exact ⟨hscan, hparse, c, hc, hbytes⟩

end TigerLang
