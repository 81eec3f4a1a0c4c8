import TigerLang.Library.Execution

/-! Parts of strings. A part that lies within its string is copied byte by byte, and any other is
refused, except where the end of the part is too large for a number of 64 bits: such a part is taken
for one that ends before the string does, and no byte of the string is where it is said to be. -/

namespace TigerLang.Library

def Within (s : Bytes) (first n : Int64) : Prop :=
  0 ≤ first.toInt ∧ 0 ≤ n.toInt ∧ first.toInt + n.toInt ≤ s.length

instance (s : Bytes) (first n : Int64) : Decidable (Within s first n) :=
  inferInstanceAs (Decidable (_ ∧ _ ∧ _))

def Overflows (first n : Int64) : Prop :=
  0 ≤ first.toInt ∧ 0 ≤ n.toInt ∧ Text.int64Bound ≤ first.toInt + n.toInt

instance (first n : Int64) : Decidable (Overflows first n) :=
  inferInstanceAs (Decidable (_ ∧ _ ∧ _))

section sums
variable {s : Bytes} {first n : Int64}

theorem toInt_length (hs : s.length < Text.int64Bound) : (length s).toInt = s.length :=
  Int64.toInt_ofNat_of_lt hs

theorem toInt_add_of_not_overflows (hfirst : 0 ≤ first.toInt) (hn : 0 ≤ n.toInt)
    (h : ¬ Overflows first n) : (first + n).toInt = first.toInt + n.toInt := by
  have hlt : first.toInt + n.toInt < 0x8000000000000000 :=
    Int.not_le.mp fun hle => h ⟨hfirst, hn, hle⟩
  rw [Int64.toInt_add]
  exact Int.bmod_eq_of_le (by omega) (by omega)

theorem toInt_add_of_overflows (h : Overflows first n) : (first + n).toInt < 0 := by
  obtain ⟨hfirst, hn, hle⟩ := h
  have hle : 0x8000000000000000 ≤ first.toInt + n.toInt := hle
  have hlt := first.toInt_lt
  have hlt' := n.toInt_lt
  rw [Int64.toInt_add, ← Int.sub_bmod_right, Int.bmod_eq_of_le] <;> omega

end sums

section parts
variable {s : Bytes} {first n : Int64}

theorem passes_iff (hs : s.length < Text.int64Bound) :
    ¬ (first < 0 ∨ n < 0 ∨ length s < first + n) ↔ Within s first n ∨ Overflows first n := by
  have hbound : (s.length : Int) < 0x8000000000000000 := Int.ofNat_lt.mpr hs
  simp only [not_or, Int64.lt_iff_toInt_lt, Int.not_lt, toInt_length hs, Int64.toInt_zero]
  by_cases h : Overflows first n
  · have hneg := toInt_add_of_overflows h
    exact ⟨fun _ => .inr h, fun _ => ⟨h.1, h.2.1, by omega⟩⟩
  · constructor
    · rintro ⟨hfirst, hn, hle⟩
      rw [toInt_add_of_not_overflows hfirst hn h] at hle
      exact .inl ⟨hfirst, hn, hle⟩
    · rintro (⟨hfirst, hn, hle⟩ | hover)
      · exact ⟨hfirst, hn, by rwa [toInt_add_of_not_overflows hfirst hn h]⟩
      · exact absurd hover h

theorem substring_of_within (hs : s.length < Text.int64Bound) (h : Within s first n) :
    substring s first n = .bytes ((s.drop first.toInt.toNat).take n.toInt.toNat) := by
  rw [substring, if_neg ((passes_iff hs).mpr (.inl h))]
  obtain ⟨hfirst, hn, hle⟩ := h
  exact if_pos (by omega)

theorem substring_of_overflows (hs : s.length < Text.int64Bound) (h : Overflows first n) :
    substring s first n = .outOfBounds := by
  rw [substring, if_neg ((passes_iff hs).mpr (.inr h))]
  obtain ⟨hfirst, hn, hle⟩ := h
  exact if_neg (by omega)

theorem substring_of_not_within (hs : s.length < Text.int64Bound) (h : ¬ Within s first n)
    (hfits : ¬ Overflows first n) : substring s first n = .outOfRange := by
  rw [substring, if_pos]
  exact Decidable.of_not_not fun hpasses => ((passes_iff hs).mp hpasses).elim h hfits

end parts

namespace Execution

def outcome {α : Type} (action : RunM α) (p : Execution) : Except Ending α × Execution :=
  action.run.run p

def refusal (first n : Int64) : String :=
  "substring(" ++ Text.showInt64 first ++ ", " ++ Text.showInt64 n ++ ") out of range\n"

/-- A part within its string is what the string has in its place, one that is not is refused with a
message, and one whose end is too large a number takes the program out of the string. No string has
as many bytes as the bound says, for memory has not. -/
theorem outcome_substring {s : Bytes} (hs : s.length < Text.int64Bound) (first n : Int64)
    (p : Execution) :
    (Within s first n → ∃ part, outcome (substring s first n) p = (.ok part, p) ∧
      part.length = n.toInt ∧ ∀ i < part.length, part[i]? = s[first.toInt.toNat + i]?) ∧
    (¬ Within s first n → ¬ Overflows first n →
      outcome (substring s first n) p =
        (.error (.exit 1), { p with errors := p.errors ++ refusal first n })) ∧
    (Overflows first n → outcome (substring s first n) p = (.error .crash, p)) := by
  refine ⟨fun h => ?_, fun h hfits => ?_, fun h => ?_⟩
  · refine ⟨(s.drop first.toInt.toNat).take n.toInt.toNat, ?_, ?_, fun i hi => ?_⟩
    · rw [substring, substring_of_within hs h]
      rfl
    · obtain ⟨hfirst, hn, hle⟩ := h
      rw [List.length_take, List.length_drop]
      omega
    · rw [List.length_take] at hi
      rw [List.getElem?_take_of_lt (by omega), List.getElem?_drop]
  · rw [substring, substring_of_not_within hs h hfits]
    rfl
  · rw [substring, substring_of_overflows hs h]
    rfl

theorem outcome_substring_hello :
    let hello : Bytes := [0x68, 0x65, 0x6c, 0x6c, 0x6f]
    let start : Execution := { input := [] }
    (Within hello 1 3 ∧ ∃ part, outcome (substring hello 1 3) start = (.ok part, start) ∧
      part.length = (3 : Int) ∧ ∀ i < part.length, part[i]? = hello[1 + i]?) ∧
    (¬ Within hello 3 3 ∧ ¬ Overflows 3 3 ∧ outcome (substring hello 3 3) start =
      (.error (.exit 1), { start with errors := "substring(3, 3) out of range\n" })) ∧
    Overflows 0x7fffffffffffffff 1 ∧
      outcome (substring hello 0x7fffffffffffffff 1) start = (.error .crash, start) := by
  intro hello start
  have hlength : hello.length < Text.int64Bound := by decide
  obtain ⟨hwithin, -⟩ := outcome_substring hlength 1 3 start
  obtain ⟨-, hrefused, -⟩ := outcome_substring hlength 3 3 start
  obtain ⟨-, -, hover⟩ := outcome_substring hlength 0x7fffffffffffffff 1 start
  have hmessage : start.errors ++ refusal 3 3 = "substring(3, 3) out of range\n" := by
    decide +kernel
  refine ⟨⟨by decide, hwithin (by decide)⟩, ⟨by decide, by decide, ?_⟩, by decide,
    hover (by decide)⟩
  rw [hrefused (by decide) (by decide), hmessage]

/-- One byte is asked for, far behind a string of three, and the program is not stopped for it. -/
theorem outcome_substring_beyond :
    let start : Execution := { input := [] }
    ¬ Within [0x61, 0x62, 0x63] 0x7fffffffffffffff 1 ∧
      outcome (substring [0x61, 0x62, 0x63] 0x7fffffffffffffff 1) start ≠
        (.error (.exit 1), { start with errors := refusal 0x7fffffffffffffff 1 }) ∧
      outcome (substring [0x61, 0x62, 0x63] 0x7fffffffffffffff 1) start =
        (.error .crash, start) := by
  intro start
  have hcrash : outcome (substring [0x61, 0x62, 0x63] 0x7fffffffffffffff 1) start =
      (.error .crash, start) := by rfl
  refine ⟨by decide, fun hexit => ?_, hcrash⟩
  rw [hcrash] at hexit
  cases hexit

end Execution

end TigerLang.Library
