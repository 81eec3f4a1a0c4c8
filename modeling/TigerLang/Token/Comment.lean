/-! Comments, which may hold further comments. They are read over any alphabet with a slash and a
star, so that lengths can be taken in characters and in bytes alike. -/

namespace TigerLang.Comment

variable {α : Type} [DecidableEq α]

/-- The length up to the mark that closes the last of `depth` open comments, `seen` symbols having
been read already. -/
def lengthFrom (slash star : α) : Nat → Nat → List α → Option Nat
  | depth, seen, a :: b :: rest =>
    if a = slash ∧ b = star then lengthFrom slash star (depth + 1) (seen + 2) rest
    else if a = star ∧ b = slash then
      if depth = 1 then some (seen + 2) else lengthFrom slash star (depth - 1) (seen + 2) rest
    else lengthFrom slash star depth (seen + 1) (b :: rest)
  | _, _, _ => none

def length (slash star : α) (text : List α) : Option Nat := lengthFrom slash star 0 0 text

theorem lt_of_lengthFrom {slash star : α} {depth seen n : Nat} {text : List α}
    (h : lengthFrom slash star depth seen text = some n) : seen < n := by
  fun_induction lengthFrom slash star depth seen text with
  | case1 depth seen a b rest _ ih => exact Nat.lt_trans (by omega) (ih h)
  | case2 seen a b rest _ _ => simp only [Option.some.injEq] at h; omega
  | case3 depth seen a b rest _ _ _ ih => exact Nat.lt_trans (by omega) (ih h)
  | case4 depth seen a b rest _ _ ih => exact Nat.lt_trans (by omega) (ih h)
  | case5 => cases h

end TigerLang.Comment
