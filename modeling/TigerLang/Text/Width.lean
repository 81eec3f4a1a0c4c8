/-! Lengths of text in bytes of its UTF-8 form. -/

namespace TigerLang.Text

def width : List Char → Nat
  | [] => 0
  | c :: cs => c.utf8Size + width cs

@[simp] theorem width_nil : width [] = 0 := rfl

@[simp] theorem width_cons (c : Char) (cs : List Char) :
    width (c :: cs) = c.utf8Size + width cs := rfl

@[simp] theorem width_append (cs ds : List Char) : width (cs ++ ds) = width cs + width ds := by
  induction cs with
  | nil => simp
  | cons c cs ih => simp [ih, Nat.add_assoc]

/-- What is left after `n` bytes. A character that the cut goes through is dropped whole. -/
def dropBytes : Nat → List Char → List Char
  | _, [] => []
  | n, c :: cs => if n = 0 then c :: cs else dropBytes (n - c.utf8Size) cs

theorem dropBytes_width (cs ds : List Char) : dropBytes (width cs) (cs ++ ds) = ds := by
  induction cs with
  | nil => cases ds <;> simp [dropBytes]
  | cons c cs ih =>
    have hpos := c.utf8Size_pos
    have hne : c.utf8Size + width cs ≠ 0 := by omega
    rw [width_cons, List.cons_append, dropBytes, if_neg hne, Nat.add_sub_cancel_left, ih]

end TigerLang.Text
