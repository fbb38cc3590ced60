/-! Text as a list of code points, measured by the bytes of its UTF-8 form. -/

namespace RegexLens

/-- Text is read one code point at a time, so it is the list of its code points. -/
abbrev Text := List Char

/-- The number of bytes in the UTF-8 form of a text, the unit of every offset. -/
def byteSize : Text → Nat
  | [] => 0
  | head :: rest => head.utf8Size + byteSize rest

/-- Nothing takes no bytes. -/
@[simp] theorem byteSize_nil : byteSize [] = 0 := rfl

/-- One code point adds its own bytes to those of the rest. -/
@[simp] theorem byteSize_cons (head : Char) (rest : Text) :
    byteSize (head :: rest) = head.utf8Size + byteSize rest := rfl

/-- Joining texts adds their sizes, so the offsets of consecutive pieces add up. -/
@[simp] theorem byteSize_append (first second : Text) :
    byteSize (first ++ second) = byteSize first + byteSize second := by
  -- Each code point of the first text contributes the same bytes on both sides.
  induction first with
  | nil => simp
  | cons head rest ih => simp [ih, Nat.add_assoc]

/-- Every code point takes at least one byte, so only the empty text has size zero. -/
@[simp] theorem byteSize_eq_zero {text : Text} : byteSize text = 0 ↔ text = [] := by
  cases text with
  | nil => simp
  | cons head rest =>
    have positive := head.utf8Size_pos
    simp
    omega

/-- The text between two byte offsets, both of which lie between code points. -/
def slice (text : Text) (start stop : Nat) : Text :=
  match text with
  | [] => []
  | head :: rest =>
    -- A code point before the start only moves the window; one inside it is kept.
    if head.utf8Size ≤ start then slice rest (start - head.utf8Size) (stop - head.utf8Size)
    else if 0 < stop then head :: slice rest 0 (stop - head.utf8Size)
    else []

end RegexLens
