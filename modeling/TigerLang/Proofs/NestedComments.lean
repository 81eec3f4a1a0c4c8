import TigerLang.Proofs.Utf8
import TigerLang.Token.Comment

/-! Comments inside comments. Counting the comments that are open finds the end of a comment where
the grammar of comments has it, and finds none where no beginning of the text is a comment. In bytes
the end is found where it is found in characters. -/

namespace TigerLang.Comment

variable {α : Type}

/-- What may stand between the marks of a comment where `after` comes next in the text: comments,
and symbols that begin no mark in their place. -/
inductive Inside (slash star : α) : List α → List α → Prop
  | none {after : List α} : Inside slash star [] after
  | comment {inner more after : List α}
    (hinner : Inside slash star inner (star :: slash :: (more ++ after)))
    (hmore : Inside slash star more after) :
    Inside slash star (slash :: star :: (inner ++ star :: slash :: more)) after
  | symbol {a : α} {more after : List α} (hopen : ¬ [slash, star] <+: a :: (more ++ after))
    (hclose : ¬ [star, slash] <+: a :: (more ++ after)) (hmore : Inside slash star more after) :
    Inside slash star (a :: more) after

def IsNested (slash star : α) (word after : List α) : Prop :=
  ∃ inner, word = slash :: star :: (inner ++ [star, slash]) ∧
    Inside slash star inner (star :: slash :: after)

def Begins (slash star : α) (text : List α) (n : Nat) : Prop :=
  n ≤ text.length ∧ IsNested slash star (text.take n) (text.drop n)

theorem pair_prefix_iff {a b c d : α} {rest : List α} :
    [a, b] <+: c :: d :: rest ↔ a = c ∧ b = d := by
  simp only [List.cons_prefix_cons, List.nil_prefix, and_true]

theorem pair_prefix_append_iff {a b c : α} {rest : List α} (hne : rest ≠ []) (after : List α) :
    [a, b] <+: c :: (rest ++ after) ↔ [a, b] <+: c :: rest := by
  obtain ⟨d, rest, rfl⟩ := List.exists_cons_of_ne_nil hne
  rw [List.cons_append, pair_prefix_iff, pair_prefix_iff]

variable [DecidableEq α] {slash star : α}

section steps
variable (depth seen : Nat) (rest : List α)

theorem lengthFrom_open : lengthFrom slash star depth seen (slash :: star :: rest) =
    lengthFrom slash star (depth + 1) (seen + 2) rest := by
  rw [lengthFrom, if_pos ⟨rfl, rfl⟩]

theorem lengthFrom_close (hne : slash ≠ star) :
    lengthFrom slash star depth seen (star :: slash :: rest) =
      if depth = 1 then some (seen + 2) else lengthFrom slash star (depth - 1) (seen + 2) rest := by
  rw [lengthFrom, if_neg fun h => hne h.2, if_pos ⟨rfl, rfl⟩]

theorem lengthFrom_symbol {a : α} (hopen : ¬ [slash, star] <+: a :: rest)
    (hclose : ¬ [star, slash] <+: a :: rest) : lengthFrom slash star depth seen (a :: rest) =
      lengthFrom slash star depth (seen + 1) rest := by
  cases rest with
  | nil => rfl
  | cons b rest =>
    rw [pair_prefix_iff] at hopen hclose
    rw [lengthFrom, if_neg fun h => hopen ⟨h.1.symm, h.2.symm⟩,
      if_neg fun h => hclose ⟨h.1.symm, h.2.symm⟩]

end steps

theorem lengthFrom_inside (hne : slash ≠ star) {inner after : List α}
    (h : Inside slash star inner after) (depth seen : Nat) :
    lengthFrom slash star (depth + 1) seen (inner ++ after) =
      lengthFrom slash star (depth + 1) (seen + inner.length) after := by
  induction h generalizing depth seen with
  | none => rfl
  | comment _ _ ihinner ihmore =>
    simp only [List.cons_append, List.append_assoc]
    rw [lengthFrom_open, ihinner, lengthFrom_close _ _ _ hne, if_neg (by omega),
      Nat.add_sub_cancel, ihmore]
    simp only [List.length_cons, List.length_append]
    congr 1
    omega
  | symbol hopen hclose _ ih =>
    rw [List.cons_append, lengthFrom_symbol _ _ _ hopen hclose, ih, List.length_cons]
    congr 1
    omega

/-- Where an end is found, the innermost comment that is open has its end before it, and counting
goes on from there with one comment fewer. -/
theorem exists_inside_of_lengthFrom {depth seen n : Nat} {text : List α}
    (h : lengthFrom slash star (depth + 1) seen text = some n) :
    ∃ inner after, text = inner ++ star :: slash :: after ∧
      Inside slash star inner (star :: slash :: after) ∧
      (if depth = 0 then some (seen + inner.length + 2)
        else lengthFrom slash star depth (seen + inner.length + 2) after) = some n := by
  induction hlength : text.length using Nat.strongRecOn generalizing depth seen text with
  | _ m ih =>
    rcases text with _ | ⟨a, _ | ⟨b, rest⟩⟩
    · cases h
    · cases h
    · subst hlength
      rw [lengthFrom] at h
      split at h
      · next hopen =>
        obtain ⟨rfl, rfl⟩ := hopen
        -- The comment that opens here has an end of its own, and the one around it goes on then.
        obtain ⟨inner, after, rfl, hinner, hrest⟩ :=
          ih _ (by simp only [List.length_cons]; omega) h rfl
        rw [if_neg (Nat.succ_ne_zero depth)] at hrest
        obtain ⟨more, after', rfl, hmore, hend⟩ :=
          ih _ (by simp only [List.length_cons, List.length_append]; omega) hrest rfl
        refine ⟨_, after', ?_, .comment hinner hmore, ?_⟩
        · simp
        · rw [← hend]
          simp only [List.length_cons, List.length_append]
          congr 2 <;> omega
      next hopen =>
      split at h
      · next hclose =>
        obtain ⟨rfl, rfl⟩ := hclose
        refine ⟨[], rest, rfl, .none, ?_⟩
        rw [← h]
        simp
      · next hclose =>
        obtain ⟨inner, after, htext, hinner, hend⟩ := ih _ (Nat.lt_succ_self _) h rfl
        refine ⟨a :: inner, after, by rw [htext]; rfl, .symbol ?_ ?_ hinner, ?_⟩
        · rw [← htext, pair_prefix_iff]
          exact fun hmark => hopen ⟨hmark.1.symm, hmark.2.symm⟩
        · rw [← htext, pair_prefix_iff]
          exact fun hmark => hclose ⟨hmark.1.symm, hmark.2.symm⟩
        · rw [← hend, List.length_cons]
          congr 2 <;> omega

theorem length_of_isNested (hne : slash ≠ star) {word after : List α}
    (h : IsNested slash star word after) :
    length slash star (word ++ after) = some word.length := by
  obtain ⟨inner, rfl, hinner⟩ := h
  simp only [List.cons_append, List.append_assoc, List.nil_append]
  rw [length, lengthFrom_open, lengthFrom_inside hne hinner, lengthFrom_close _ _ _ hne, if_pos rfl]
  simp only [List.length_cons, List.length_append, List.length_nil]
  congr 1
  omega

theorem isNested_of_length {text : List α} (hopen : [slash, star] <+: text) {n : Nat}
    (h : length slash star text = some n) :
    ∃ word after, text = word ++ after ∧ word.length = n ∧ IsNested slash star word after := by
  obtain ⟨rest, rfl⟩ := hopen
  rw [length, List.cons_append, List.cons_append, lengthFrom_open] at h
  obtain ⟨inner, after, rfl, hinner, hend⟩ := exists_inside_of_lengthFrom h
  refine ⟨slash :: star :: (inner ++ [star, slash]), after, by simp, ?_, inner, rfl, hinner⟩
  obtain rfl := Option.some.inj hend
  simp only [List.length_cons, List.length_append, List.length_nil]
  omega

theorem length_eq_some_iff (hne : slash ≠ star) {text : List α} (hopen : [slash, star] <+: text)
    {n : Nat} : length slash star text = some n ↔ Begins slash star text n := by
  constructor
  · intro h
    obtain ⟨word, after, rfl, rfl, hnested⟩ := isNested_of_length hopen h
    rw [Begins, List.take_left, List.drop_left]
    exact ⟨by simp, hnested⟩
  · rintro ⟨hle, hnested⟩
    have hfound := length_of_isNested hne hnested
    rwa [List.take_append_drop, List.length_take, Nat.min_eq_left hle] at hfound

/-! The count -/

inductive Reached (slash star : α) (text : List α) : Nat → Nat → List α → Prop
  | start : Reached slash star text 0 0 text
  | opened {depth seen : Nat} {rest : List α}
    (h : Reached slash star text depth seen (slash :: star :: rest)) :
    Reached slash star text (depth + 1) (seen + 2) rest
  | closed {depth seen : Nat} {rest : List α}
    (h : Reached slash star text depth seen (star :: slash :: rest)) (hdepth : depth ≠ 1) :
    Reached slash star text (depth - 1) (seen + 2) rest
  | passed {depth seen : Nat} {a b : α} {rest : List α}
    (h : Reached slash star text depth seen (a :: b :: rest)) (hopen : ¬ (a = slash ∧ b = star))
    (hclose : ¬ (a = star ∧ b = slash)) : Reached slash star text depth (seen + 1) (b :: rest)

theorem Reached.lengthFrom_eq (hne : slash ≠ star) {text rest : List α} {depth seen : Nat}
    (h : Reached slash star text depth seen rest) :
    lengthFrom slash star depth seen rest = length slash star text := by
  induction h with
  | start => rfl
  | opened _ ih => rw [← ih, lengthFrom_open]
  | closed _ hdepth ih => rw [← ih, lengthFrom_close _ _ _ hne, if_neg hdepth]
  | passed _ hopen hclose ih => rw [← ih, lengthFrom, if_neg hopen, if_neg hclose]

omit [DecidableEq α] in
theorem Reached.eq_text_of_zero (hne : slash ≠ star) {text rest : List α}
    (hopen : [slash, star] <+: text) {depth seen : Nat}
    (h : Reached slash star text depth seen rest) (hdepth : depth = 0) : rest = text := by
  obtain ⟨tail, rfl⟩ := hopen
  induction h with
  | start => rfl
  | opened _ _ => cases hdepth
  | closed _ hone ih =>
    obtain ⟨hstar, -⟩ := List.cons.inj (ih (by omega))
    exact absurd hstar.symm hne
  | passed _ hmark _ ih =>
    obtain ⟨ha, hrest⟩ := List.cons.inj (ih hdepth)
    exact absurd ⟨ha, (List.cons.inj hrest).1⟩ hmark

omit [DecidableEq α] in
theorem Reached.pos (hne : slash ≠ star) {text rest : List α} (hopen : [slash, star] <+: text)
    {depth seen : Nat} (h : Reached slash star text depth seen rest)
    (hclose : [star, slash] <+: rest) : 0 < depth := by
  rw [Nat.pos_iff_ne_zero]
  intro hzero
  obtain ⟨tail, rfl⟩ := hopen
  obtain rfl := h.eq_text_of_zero hne ⟨tail, rfl⟩ hzero
  rw [List.cons_append, List.cons_append, pair_prefix_iff] at hclose
  exact hne hclose.1.symm

/-! Characters and bytes -/

theorem lengthFrom_append {skipped : List α} (h : ∀ a ∈ skipped, a ≠ slash ∧ a ≠ star)
    (depth seen : Nat) (rest : List α) : lengthFrom slash star depth seen (skipped ++ rest) =
      lengthFrom slash star depth (seen + skipped.length) rest := by
  induction skipped generalizing seen with
  | nil => rfl
  | cons a skipped ih =>
    obtain ⟨ha, hskipped⟩ := List.forall_mem_cons.mp h
    rw [List.cons_append, lengthFrom_symbol, ih hskipped, List.length_cons, Nat.add_assoc,
      Nat.add_comm 1]
    · exact fun hfront => ha.1 (List.cons_prefix_cons.mp hfront).1.symm
    · exact fun hfront => ha.2 (List.cons_prefix_cons.mp hfront).1.symm

theorem pair_prefix_bytes_iff {c d : Char} (hc : Text.isAscii c = true) (hd : Text.isAscii d = true)
    {text : List Char} : [c.toUInt8, d.toUInt8] <+: Text.bytes text ↔ [c, d] <+: text := by
  rw [Text.cons_prefix_bytes_iff hc]
  constructor
  · rintro ⟨rest, rfl, hrest⟩
    obtain ⟨tail, rfl, -⟩ := (Text.cons_prefix_bytes_iff hd).mp hrest
    exact ⟨tail, rfl⟩
  · rintro ⟨tail, rfl⟩
    exact ⟨d :: tail, rfl, (Text.cons_prefix_bytes_iff hd).mpr ⟨tail, rfl, List.nil_prefix⟩⟩

theorem lengthFrom_bytes_symbol {c : Char} {rest : List Char} (hopen : ¬ ['/', '*'] <+: c :: rest)
    (hclose : ¬ ['*', '/'] <+: c :: rest) (depth seen : Nat) :
    lengthFrom '/'.toUInt8 '*'.toUInt8 depth seen (Text.bytes (c :: rest)) =
      lengthFrom '/'.toUInt8 '*'.toUInt8 depth (seen + c.utf8Size) (Text.bytes rest) := by
  cases hc : Text.isAscii c with
  | true =>
    rw [← pair_prefix_bytes_iff rfl rfl, Text.bytes_cons, Text.encode_of_isAscii hc] at hopen hclose
    rw [← String.length_utf8EncodeChar, Text.bytes_cons, Text.encode_of_isAscii hc]
    exact lengthFrom_symbol _ _ _ hopen hclose
  | false =>
    rw [← String.length_utf8EncodeChar, Text.bytes_cons]
    refine lengthFrom_append (fun b hb => ?_) _ _ _
    have hle := Text.le_of_mem_encode hc hb
    constructor <;> rintro rfl <;> exact absurd hle (by decide)

theorem lengthFrom_bytes (depth : Nat) (front text : List Char) :
    lengthFrom '/'.toUInt8 '*'.toUInt8 depth (Text.width front) (Text.bytes text) =
      (lengthFrom '/' '*' depth front.length text).map fun n =>
        Text.width ((front ++ text).take n) := by
  induction hlength : text.length using Nat.strongRecOn generalizing depth front text with
  | _ m ih =>
    subst hlength
    have hread : ∀ depth part rest, part ++ rest = text → part ≠ [] →
        lengthFrom '/'.toUInt8 '*'.toUInt8 depth (Text.width front + Text.width part)
          (Text.bytes rest) = (lengthFrom '/' '*' depth (front.length + part.length) rest).map
            fun n => Text.width ((front ++ text).take n) := by
      rintro depth part rest rfl hpart
      have hpos := List.length_pos_iff.mpr hpart
      have hless : rest.length < (part ++ rest).length := by
        rw [List.length_append]
        omega
      rw [← Text.width_append, ih _ hless _ (front ++ part) _ rfl, List.length_append,
        List.append_assoc]
    by_cases hopen : ['/', '*'] <+: text
    · obtain ⟨rest, rfl⟩ := hopen
      exact hread (depth + 1) ['/', '*'] rest rfl (by simp)
    by_cases hclose : ['*', '/'] <+: text
    · obtain ⟨rest, rfl⟩ := hclose
      have hbytes : Text.bytes (['*', '/'] ++ rest) =
          '*'.toUInt8 :: '/'.toUInt8 :: Text.bytes rest := rfl
      rw [hbytes, lengthFrom_close _ _ _ (by decide), List.cons_append, List.cons_append,
        lengthFrom_close _ _ _ (by decide)]
      split
      · have htake :
            (front ++ '*' :: '/' :: rest).take (front.length + 2) = front ++ ['*', '/'] := by
          rw [List.take_length_add_append, List.take_succ_cons, List.take_succ_cons, List.take_zero]
        rw [Option.map_some, List.nil_append, htake, Text.width_append]
        rfl
      · exact hread (depth - 1) ['*', '/'] rest rfl (by simp)
    · cases text with
      | nil => rfl
      | cons c rest =>
        rw [lengthFrom_bytes_symbol hopen hclose, lengthFrom_symbol _ _ _ hopen hclose]
        exact hread depth [c] rest rfl (by simp)

theorem length_bytes (text : List Char) :
    length '/'.toUInt8 '*'.toUInt8 (Text.bytes text) =
      (length '/' '*' text).map fun n => Text.width (text.take n) :=
  lengthFrom_bytes 0 [] text

/-- Of a text that opens with the mark of a comment, the length that is found is that of the only
comment with which it begins, and none is found if it begins with none. No comment is counted as
closed that has not been opened, and the end of a comment in a text of characters stands between two
of them. -/
theorem length_begins {text : List UInt8} (hopen : ['/'.toUInt8, '*'.toUInt8] <+: text) :
    (∀ n, length '/'.toUInt8 '*'.toUInt8 text = some n ↔ Begins '/'.toUInt8 '*'.toUInt8 text n) ∧
    (∀ m n, Begins '/'.toUInt8 '*'.toUInt8 text m → Begins '/'.toUInt8 '*'.toUInt8 text n → m = n) ∧
    ((∀ n, ¬ Begins '/'.toUInt8 '*'.toUInt8 text n) → length '/'.toUInt8 '*'.toUInt8 text = none) ∧
    (∀ depth seen rest, Reached '/'.toUInt8 '*'.toUInt8 text depth seen rest →
      lengthFrom '/'.toUInt8 '*'.toUInt8 depth seen rest = length '/'.toUInt8 '*'.toUInt8 text ∧
      (['*'.toUInt8, '/'.toUInt8] <+: rest → 0 < depth)) ∧
    ∀ source n, text = Text.bytes source → length '/'.toUInt8 '*'.toUInt8 text = some n →
      ∃ before after, source = before ++ after ∧ Text.width before = n ∧
        length '/' '*' source = some before.length := by
  have hne : '/'.toUInt8 ≠ '*'.toUInt8 := by decide
  refine ⟨fun n => length_eq_some_iff hne hopen, fun m n hm hn => ?_, fun hnone => ?_,
    fun depth seen rest h => ⟨h.lengthFrom_eq hne, h.pos hne hopen⟩, ?_⟩
  · rw [← length_eq_some_iff hne hopen] at hm hn
    exact Option.some.inj (hm.symm.trans hn)
  · rw [Option.eq_none_iff_forall_ne_some]
    exact fun n hsome => hnone n ((length_eq_some_iff hne hopen).mp hsome)
  · rintro source n rfl hlength
    rw [length_bytes, Option.map_eq_some_iff] at hlength
    obtain ⟨k, hk, rfl⟩ := hlength
    refine ⟨source.take k, source.drop k, (List.take_append_drop k source).symm, rfl, ?_⟩
    have hopen' := (pair_prefix_bytes_iff rfl rfl).mp hopen
    have hle := ((length_eq_some_iff (by decide) hopen').mp hk).1
    rw [hk, List.length_take, Nat.min_eq_left hle]

theorem length_begins_overlapping :
    (['/'.toUInt8, '*'.toUInt8] <+: Text.bytes "/*/ é /***/ */ */".toList ∧
      Begins '/'.toUInt8 '*'.toUInt8 (Text.bytes "/*/ é /***/ */ */".toList) 15 ∧
      ∃ before after, "/*/ é /***/ */ */".toList = before ++ after ∧ Text.width before = 15 ∧
        length '/' '*' "/*/ é /***/ */ */".toList = some before.length) ∧
    ['/'.toUInt8, '*'.toUInt8] <+: Text.bytes "/*/".toList ∧
      ∀ n, ¬ Begins '/'.toUInt8 '*'.toUInt8 (Text.bytes "/*/".toList) n := by
  have hopen : ['/'.toUInt8, '*'.toUInt8] <+: Text.bytes "/*/ é /***/ */ */".toList := ⟨_, rfl⟩
  have hopen' : ['/'.toUInt8, '*'.toUInt8] <+: Text.bytes "/*/".toList := ⟨_, rfl⟩
  have hlength :
      length '/'.toUInt8 '*'.toUInt8 (Text.bytes "/*/ é /***/ */ */".toList) = some 15 := by
    decide +kernel
  have hnone : length '/'.toUInt8 '*'.toUInt8 (Text.bytes "/*/".toList) = none := by decide +kernel
  obtain ⟨hfound, -, -, -, hboundary⟩ := length_begins hopen
  obtain ⟨hfound', -⟩ := length_begins hopen'
  refine ⟨⟨hopen, (hfound 15).mp hlength, hboundary _ 15 rfl hlength⟩, hopen', fun n hbegins => ?_⟩
  rw [← hfound', hnone] at hbegins
  cases hbegins

end TigerLang.Comment
