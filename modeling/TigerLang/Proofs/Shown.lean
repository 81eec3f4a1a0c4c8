import Mathlib.Logic.Function.Basic
import TigerLang.Text.Decimal
import TigerLang.Text.Quoted

/-! Texts and numbers as they are shown. They stay on one line, and what is shown tells which text or
number it was. -/

namespace TigerLang.Text

theorem append_cons_inj_of_notMem {α : Type} {mark : α} {xs ys rest rest' : List α}
    (hxs : mark ∉ xs) (hys : mark ∉ ys) (h : xs ++ mark :: rest = ys ++ mark :: rest') : xs = ys ∧ rest = rest' := by
  induction xs generalizing ys with
  | nil =>
    cases ys with
    | nil => exact ⟨rfl, (List.cons.inj h).2⟩
    | cons y ys => exact absurd ((List.cons.inj h).1 ▸ List.mem_cons_self) hys
  | cons x xs ih =>
    cases ys with
    | nil => exact absurd ((List.cons.inj h).1 ▸ List.mem_cons_self) hxs
    | cons y ys =>
      obtain ⟨rfl, htail⟩ := List.cons.inj h
      obtain ⟨rfl, hrest⟩ :=
        ih (List.not_mem_of_not_mem_cons hxs) (List.not_mem_of_not_mem_cons hys) htail
      exact ⟨rfl, hrest⟩

theorem append_cons_inj_of_notMem_right {α : Type} {mark : α} {xs ys rest rest' : List α}
    (hrest : mark ∉ rest) (hrest' : mark ∉ rest') (h : xs ++ mark :: rest = ys ++ mark :: rest') :
    xs = ys ∧ rest = rest' := by
  have hreverse : rest.reverse ++ mark :: xs.reverse = rest'.reverse ++ mark :: ys.reverse := by
    simpa using congrArg List.reverse h
  obtain ⟨hrests, hfirsts⟩ :=
    append_cons_inj_of_notMem (by simpa using hrest) (by simpa using hrest') hreverse
  exact ⟨List.reverse_inj.mp hfirsts, List.reverse_inj.mp hrests⟩

/-! Digits -/

theorem exists_digitChar_of_mem {b n : Nat} (hb : 1 < b) {c : Char} (h : c ∈ b.toDigits n) :
    ∃ digit : Nat, c = digit.digitChar := by
  induction n using Nat.strongRecOn with
  | _ n ih =>
    rw [Nat.toDigits_eq_if hb] at h
    split at h
    · exact ⟨n, List.mem_singleton.mp h⟩
    · next hle =>
      rcases List.mem_append.mp h with hfront | hlast
      · exact ih _ (Nat.div_lt_self (by omega) hb) hfront
      · exact ⟨_, List.mem_singleton.mp hlast⟩

theorem digitChar_inj {x y : Nat} (hx : x < 16) (hy : y < 16) (h : x.digitChar = y.digitChar) :
    x = y := by
  have hall : ∀ x < 16, ∀ y < 16, x.digitChar = y.digitChar → x = y := by decide
  exact hall x hx y hy h

theorem toDigits_injective {b : Nat} (hb : 1 < b) (hb' : b ≤ 16) :
    Function.Injective (Nat.toDigits b) := by
  have hlong : ∀ k c d, b.toDigits k ++ [c] ≠ [d] := by
    intro k c d heq
    have hlength := congrArg List.length heq
    have hpos : 0 < (b.toDigits k).length := Nat.length_toDigits_pos
    simp only [List.length_append, List.length_singleton] at hlength
    omega
  intro n
  induction n using Nat.strongRecOn with
  | _ n ih =>
    intro m h
    -- One number may have a single digit and the other several, which `hlong` rules out.
    rcases Nat.lt_or_ge n b with hn | hn <;> rcases Nat.lt_or_ge m b with hm | hm
    · rw [Nat.toDigits_of_lt_base hn, Nat.toDigits_of_lt_base hm] at h
      exact digitChar_inj (by omega) (by omega) (List.singleton_inj.mp h)
    · rw [Nat.toDigits_of_lt_base hn, Nat.toDigits_of_base_le hb hm] at h
      exact absurd h.symm (hlong _ _ _)
    · rw [Nat.toDigits_of_base_le hb hn, Nat.toDigits_of_lt_base hm] at h
      exact absurd h (hlong _ _ _)
    · rw [Nat.toDigits_of_base_le hb hn, Nat.toDigits_of_base_le hb hm] at h
      obtain ⟨hfront, hlast⟩ := List.append_inj' h rfl
      have hdiv : n / b = m / b := ih _ (Nat.div_lt_self (by omega) hb) hfront
      have hlt : ∀ k, k % b < 16 := fun k => Nat.lt_of_lt_of_le (Nat.mod_lt k (by omega)) hb'
      have hmod : n % b = m % b := digitChar_inj (hlt n) (hlt m) (List.singleton_inj.mp hlast)
      rw [← Nat.div_add_mod n b, ← Nat.div_add_mod m b, hdiv, hmod]

theorem repr_injective : Function.Injective Nat.repr := by
  intro n m h
  rw [Nat.repr_eq_ofList_toDigits, Nat.repr_eq_ofList_toDigits] at h
  exact toDigits_injective (by decide) (by decide) (String.ofList_injective h)

theorem notMem_repr {c : Char} (hc : c.isDigit = false) (n : Nat) : c ∉ n.repr.toList := by
  intro hmem
  rw [Nat.toList_repr] at hmem
  rw [Nat.isDigit_of_mem_toDigits (by decide) (by decide) hmem] at hc
  cases hc

theorem showInt64_injective : Function.Injective showInt64 := by
  intro i j h
  have hsign : ∀ n m : Nat, "-" ++ n.repr ≠ m.repr := by
    intro n m heq
    refine notMem_repr (c := '-') rfl m ?_
    rw [← heq, String.toList_append]
    exact List.mem_append_left _ (by decide)
  apply Int64.toInt_inj.mp
  unfold showInt64 at h
  dsimp only at h
  split at h <;> split at h
  · have habs := repr_injective ((String.append_right_inj _).mp h)
    omega
  · exact absurd h (hsign _ _)
  · exact absurd h.symm (hsign _ _)
  · have habs := repr_injective h
    omega

theorem newline_notMem_showInt64 (i : Int64) : '\n' ∉ (showInt64 i).toList := by
  unfold showInt64
  dsimp only
  split
  · rw [String.toList_append]
    exact fun hmem => (List.mem_append.mp hmem).elim (by decide) (notMem_repr rfl _)
  · exact notMem_repr rfl _

/-! Quoted text -/

def escapedBy (letter : Char) : Char :=
  if letter = '0' then '\x00'
  else if letter = 't' then '\t'
  else if letter = 'n' then '\n'
  else if letter = 'r' then '\r'
  else letter

theorem quoteChar_forms (c : Char) :
    (∃ letter, quoteChar c = ['\\', letter] ∧ letter ≠ 'u' ∧ letter ≠ '\n' ∧ escapedBy letter = c) ∨
      quoteChar c = codePointEscape c ∨ (quoteChar c = [c] ∧ c ≠ '\\' ∧ c ≠ '\n') := by
  unfold quoteChar
  split
  · next hc => exact .inl ⟨'0', rfl, by decide, by decide, by rw [hc]; rfl⟩
  split
  · next hc => exact .inl ⟨'t', rfl, by decide, by decide, by rw [hc]; rfl⟩
  split
  · next hc => exact .inl ⟨'n', rfl, by decide, by decide, by rw [hc]; rfl⟩
  split
  · next hc => exact .inl ⟨'r', rfl, by decide, by decide, by rw [hc]; rfl⟩
  split
  · next hc => exact .inl ⟨'\\', rfl, by decide, by decide, by rw [hc]; rfl⟩
  split
  · next hc => exact .inl ⟨'"', rfl, by decide, by decide, by rw [hc]; rfl⟩
  split
  · exact .inr (.inl rfl)
  · next hnewline _ hbackslash _ _ => exact .inr (.inr ⟨rfl, hbackslash, hnewline⟩)

theorem notMem_toDigits {c : Char} (hc : ∀ digit : Nat, digit.digitChar ≠ c) (n : Nat) :
    c ∉ Nat.toDigits 16 n := by
  intro hmem
  obtain ⟨digit, hdigit⟩ := exists_digitChar_of_mem (by decide) hmem
  exact hc digit hdigit.symm

theorem codePointEscape_append_inj {c d : Char} {cs ds : List Char}
    (h : codePointEscape c ++ cs = codePointEscape d ++ ds) : c = d ∧ cs = ds := by
  -- The closing brace is no digit, so the digits end at the first one.
  have hbrace : ∀ n, '\x7d' ∉ Nat.toDigits 16 n :=
    notMem_toDigits fun _ => Nat.digitChar_ne _ (by decide)
  have hdigits : Nat.toDigits 16 c.toNat ++ '\x7d' :: cs =
      Nat.toDigits 16 d.toNat ++ '\x7d' :: ds := by
    simpa [codePointEscape] using h
  obtain ⟨hcode, hrest⟩ := append_cons_inj_of_notMem (hbrace _) (hbrace _) hdigits
  have hnat := toDigits_injective (by decide) (by decide) hcode
  exact ⟨Char.toNat_inj.mp hnat, hrest⟩

theorem quoteChar_append_inj {c d : Char} {cs ds : List Char}
    (h : quoteChar c ++ cs = quoteChar d ++ ds) : c = d ∧ cs = ds := by
  obtain ⟨x, hc, hx, -, rfl⟩ | hc | ⟨hc, hc', -⟩ := quoteChar_forms c <;>
    obtain ⟨y, hd, hy, -, rfl⟩ | hd | ⟨hd, hd', -⟩ := quoteChar_forms d <;> rw [hc, hd] at h
  · obtain ⟨hletter, hrest⟩ := List.cons.inj (List.cons.inj h).2
    exact ⟨congrArg escapedBy hletter, hrest⟩
  · exact absurd (List.cons.inj (List.cons.inj h).2).1 hx
  · exact absurd (List.cons.inj h).1.symm hd'
  · exact absurd (List.cons.inj (List.cons.inj h).2).1.symm hy
  · exact codePointEscape_append_inj h
  · exact absurd (List.cons.inj h).1.symm hd'
  · exact absurd (List.cons.inj h).1 hc'
  · exact absurd (List.cons.inj h).1 hc'
  · exact List.cons.inj h

theorem quoteChar_ne_nil (c : Char) : quoteChar c ≠ [] := by
  obtain ⟨x, hc, -⟩ | hc | ⟨hc, -⟩ := quoteChar_forms c <;> simp [hc, codePointEscape]

theorem newline_notMem_quoteChar (c : Char) : '\n' ∉ quoteChar c := by
  obtain ⟨x, hc, -, hx, -⟩ | hc | ⟨hc, -, hc'⟩ := quoteChar_forms c
  · simp [hc, hx.symm]
  · have hdigits : '\n' ∉ Nat.toDigits 16 c.toNat :=
      notMem_toDigits (fun _ => Nat.digitChar_ne _ (by decide)) _
    simp [hc, codePointEscape, hdigits]
  · simp [hc, hc'.symm]

theorem quotedChars_injective : Function.Injective quotedChars := by
  intro cs ds h
  have hinner : cs.flatMap quoteChar = ds.flatMap quoteChar :=
    List.append_cancel_right (List.cons.inj h).2
  clear h
  induction cs generalizing ds with
  | nil =>
    cases ds with
    | nil => rfl
    | cons d ds => simp [quoteChar_ne_nil] at hinner
  | cons c cs ih =>
    cases ds with
    | nil => simp [quoteChar_ne_nil] at hinner
    | cons d ds =>
      obtain ⟨rfl, hrest⟩ := quoteChar_append_inj hinner
      rw [ih hrest]

theorem quoted_injective : Function.Injective quoted := by
  intro s t h
  exact String.toList_inj.mp (quotedChars_injective (String.ofList_injective h))

theorem newline_notMem_quoted (s : String) : '\n' ∉ (quoted s).toList := by
  simp [quoted, quotedChars, newline_notMem_quoteChar]

end TigerLang.Text
