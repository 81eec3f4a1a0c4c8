import TigerLang.Text.Width

/-! Texts as bytes in UTF-8. A character below 128 is a byte of its own, and none of the bytes of
any other character is below 128, so such characters are found among the bytes where they are found
in the text. -/

namespace TigerLang.Text

def bytes (text : List Char) : List UInt8 := text.flatMap String.utf8EncodeChar

@[simp] theorem bytes_nil : bytes [] = [] := rfl

@[simp] theorem bytes_cons (c : Char) (cs : List Char) :
    bytes (c :: cs) = String.utf8EncodeChar c ++ bytes cs := rfl

@[simp] theorem bytes_append (cs ds : List Char) : bytes (cs ++ ds) = bytes cs ++ bytes ds :=
  List.flatMap_append

@[simp] theorem length_bytes (cs : List Char) : (bytes cs).length = width cs := by
  induction cs with
  | nil => rfl
  | cons c cs ih =>
    rw [bytes_cons, List.length_append, String.length_utf8EncodeChar, ih, width_cons]

def isAscii (c : Char) : Bool := c.toNat < 128

theorem encode_of_isAscii {c : Char} (h : isAscii c = true) :
    String.utf8EncodeChar c = [c.toUInt8] := by
  have hlt : c.val.toNat < 128 := of_decide_eq_true h
  rw [String.utf8EncodeChar.eq_def]
  exact if_pos (by omega)

theorem le_of_mem_encode {c : Char} (h : isAscii c = false) {b : UInt8}
    (hb : b ∈ String.utf8EncodeChar c) : 128 ≤ b.toNat := by
  have hge : 128 ≤ c.val.toNat := Nat.not_lt.mp (of_decide_eq_false h)
  rw [String.utf8EncodeChar.eq_def] at hb
  dsimp only at hb
  rw [if_neg (by omega)] at hb
  split at hb
  · simp only [List.mem_cons, List.not_mem_nil, or_false] at hb
    rcases hb with rfl | rfl <;> rw [UInt8.toNat_ofNat'] <;> omega
  split at hb
  · simp only [List.mem_cons, List.not_mem_nil, or_false] at hb
    rcases hb with rfl | rfl | rfl <;> rw [UInt8.toNat_ofNat'] <;> omega
  · simp only [List.mem_cons, List.not_mem_nil, or_false] at hb
    rcases hb with rfl | rfl | rfl | rfl <;> rw [UInt8.toNat_ofNat'] <;> omega

theorem toUInt8_inj_of_isAscii {c d : Char} (hc : isAscii c = true) (hd : isAscii d = true)
    (h : c.toUInt8 = d.toUInt8) : c = d := by
  have hc : c.toNat < 128 := of_decide_eq_true hc
  have hd : d.toNat < 128 := of_decide_eq_true hd
  have hnat : c.toNat % 256 = d.toNat % 256 := congrArg UInt8.toNat h
  exact Char.toNat_inj.mp (by omega)

theorem mem_encode_iff {c d : Char} (hd : isAscii d = true) :
    d.toUInt8 ∈ String.utf8EncodeChar c ↔ d = c := by
  cases hc : isAscii c with
  | true =>
    rw [encode_of_isAscii hc, List.mem_singleton]
    exact ⟨toUInt8_inj_of_isAscii hd hc, congrArg Char.toUInt8⟩
  | false =>
    have hlt : d.toNat < 128 := of_decide_eq_true hd
    constructor
    · intro hmem
      have hle : 128 ≤ d.toNat % 256 := le_of_mem_encode hc hmem
      omega
    · rintro rfl
      rw [hd] at hc
      cases hc

theorem mem_bytes_iff {c : Char} (hc : isAscii c = true) {text : List Char} :
    c.toUInt8 ∈ bytes text ↔ c ∈ text := by
  simp only [bytes, List.mem_flatMap, mem_encode_iff hc, exists_eq_right']

theorem count_bytes {c : Char} (hc : isAscii c = true) (text : List Char) :
    (bytes text).count c.toUInt8 = text.count c := by
  induction text with
  | nil => rfl
  | cons d text ih =>
    rw [bytes_cons, List.count_append, ih, List.count_cons, Nat.add_comm]
    congr 1
    by_cases hd : d = c
    · rw [hd, encode_of_isAscii hc]
      simp
    · rw [if_neg (by simpa using hd)]
      exact List.count_eq_zero.mpr fun hmem => hd ((mem_encode_iff hc).mp hmem).symm

theorem getLast?_of_getLast?_bytes {c : Char} (hc : isAscii c = true) {text : List Char}
    (h : (bytes text).getLast? = some c.toUInt8) : text.getLast? = some c := by
  rcases List.eq_nil_or_concat text with rfl | ⟨front, d, rfl⟩
  · cases h
  · rw [List.concat_eq_append] at h ⊢
    have hd : bytes [d] = String.utf8EncodeChar d := List.append_nil _
    have hlast : (String.utf8EncodeChar d).getLast? = some c.toUInt8 := by
      rw [bytes_append, hd, List.getLast?_append] at h
      cases hlast : (String.utf8EncodeChar d).getLast? with
      | none => exact absurd (List.getLast?_eq_none_iff.mp hlast) String.utf8EncodeChar_ne_nil
      | some b => rwa [hlast, Option.some_or] at h
    rw [List.getLast?_concat, (mem_encode_iff hc).mp (List.mem_of_getLast? hlast)]

theorem cons_prefix_bytes_iff {c : Char} (hc : isAscii c = true) {bs : List UInt8}
    {text : List Char} :
    c.toUInt8 :: bs <+: bytes text ↔ ∃ rest, text = c :: rest ∧ bs <+: bytes rest := by
  constructor
  · intro hfront
    cases text with
    | nil => exact absurd (List.prefix_nil.mp hfront) (List.cons_ne_nil _ _)
    | cons d rest =>
      obtain ⟨b, bs', hencode⟩ := List.exists_cons_of_ne_nil (String.utf8EncodeChar_ne_nil (c := d))
      have hb : c.toUInt8 = b := by
        rw [bytes_cons, hencode, List.cons_append, List.cons_prefix_cons] at hfront
        exact hfront.1
      obtain rfl : c = d := (mem_encode_iff hc).mp (hencode ▸ hb ▸ List.mem_cons_self)
      rw [bytes_cons, encode_of_isAscii hc, List.singleton_append, List.cons_prefix_cons] at hfront
      exact ⟨rest, rfl, hfront.2⟩
  · rintro ⟨rest, rfl, hfront⟩
    rw [bytes_cons, encode_of_isAscii hc, List.singleton_append, List.cons_prefix_cons]
    exact ⟨rfl, hfront⟩

end TigerLang.Text
