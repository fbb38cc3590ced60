import RegexLens.Text

/-! Front parts of texts, and the text that stands at a byte offset. -/

namespace RegexLens

/-- Taking as many characters as a front part has gives that front part. -/
theorem take_length_of_append {front rest text : Text} (cut : front ++ rest = text) :
    text.take front.length = front := by
  -- The front part is what the text splits into at its own length.
  rw [← cut, List.take_left]

/-- The text between the offsets at which a piece starts and ends is that piece. -/
theorem slice_append (before piece after : Text) :
    slice (before ++ piece ++ after) (byteSize before) (byteSize before + byteSize piece) =
      piece := by
  -- The window shifts past what stands in front and shrinks with each character it keeps.
  induction before with
  | nil =>
    induction piece with
    | nil =>
      cases after with
      | nil => rfl
      -- Behind the piece the window is empty, since every character takes at least one byte.
      | cons head tail =>
        have := head.utf8Size_pos
        simp [slice]
        omega
    | cons head tail ih =>
      -- A character of the piece is kept, and it takes its bytes from the end of the window.
      have positive := head.utf8Size_pos
      simp only [List.nil_append, byteSize_nil, byteSize_cons, Nat.zero_add] at ih ⊢
      rw [List.cons_append, slice, if_neg (by omega), if_pos (by omega), Nat.add_sub_cancel_left,
        ih]
  | cons head tail ih =>
    -- A character in front of the piece moves the window by its bytes.
    simp only [List.cons_append, byteSize_cons, Nat.add_assoc] at ih ⊢
    rw [slice, if_pos (by omega), Nat.add_sub_cancel_left, Nat.add_sub_cancel_left, ih]

/-- Turning a text around keeps its size. -/
theorem byteSize_reverse (text : Text) : byteSize text.reverse = byteSize text := by
  induction text with
  | nil => rfl
  | cons head tail ih => simp [ih, Nat.add_comm]

/-- Front parts of one text are the same when they have the same size. -/
theorem front_eq_of_byteSize_eq {front other rest behind : Text}
    (whole : front ++ rest = other ++ behind) (size : byteSize front = byteSize other) :
    front = other := by
  -- One of them continues the other, and what it adds takes no bytes.
  rcases List.append_eq_append_iff.mp whole with ⟨extra, rfl, -⟩ | ⟨extra, rfl, -⟩
  · rw [byteSize_append] at size
    have nothing : extra = [] := byteSize_eq_zero.mp (by omega)
    simp [nothing]
  · rw [byteSize_append] at size
    have nothing : extra = [] := byteSize_eq_zero.mp (by omega)
    simp [nothing]

/-- An offset at which a text can be cut without tearing a character apart. -/
def OnBoundary (text : Text) (offset : Nat) : Prop :=
  ∃ before after, text = before ++ after ∧ byteSize before = offset

/-- A text can be cut in front of its first character. -/
theorem onBoundary_zero (text : Text) : OnBoundary text 0 :=
  ⟨[], text, rfl, rfl⟩

/-- A text can be cut behind its last character. -/
theorem onBoundary_byteSize (text : Text) : OnBoundary text (byteSize text) :=
  ⟨text, [], (List.append_nil text).symm, rfl⟩

section Boundaries

variable {text : Text} {start middle stop : Nat}

/-- No cut lies behind the end of the text. -/
theorem OnBoundary.le_byteSize (cut : OnBoundary text stop) : stop ≤ byteSize text := by
  obtain ⟨before, after, rfl, rfl⟩ := cut
  rw [byteSize_append]
  exact Nat.le_add_right _ _

/-- Two cuts leave a piece between them. -/
theorem OnBoundary.piece (first : OnBoundary text start) (second : OnBoundary text stop)
    (order : start ≤ stop) :
    ∃ before piece after, text = before ++ piece ++ after ∧ byteSize before = start ∧
      byteSize before + byteSize piece = stop := by
  obtain ⟨before, behind, whole, rfl⟩ := first
  obtain ⟨front, after, again, rfl⟩ := second
  -- What stands in front of the one cut is a front part of what stands in front of the other.
  rcases List.append_eq_append_iff.mp (whole.symm.trans again) with
    ⟨piece, rfl, rfl⟩ | ⟨piece, rfl, rfl⟩
  · exact ⟨before, piece, after, again, rfl, (byteSize_append before piece).symm⟩
  · -- The earlier cut does not stand behind the later one, so nothing is between them.
    rw [byteSize_append] at order
    have nothing : piece = [] := byteSize_eq_zero.mp (by omega)
    subst nothing
    exact ⟨front, [], behind, by simpa using again, by simp, by simp⟩

/-- The text between two cuts has as many bytes as the cuts are apart. -/
theorem byteSize_slice (first : OnBoundary text start) (second : OnBoundary text stop)
    (order : start ≤ stop) : byteSize (slice text start stop) = stop - start := by
  obtain ⟨before, piece, after, rfl, rfl, rfl⟩ := first.piece second order
  rw [slice_append]
  omega

/-- There is no text between two cuts when they are the same. -/
theorem slice_eq_nil_iff (first : OnBoundary text start) (second : OnBoundary text stop)
    (order : start ≤ stop) : slice text start stop = [] ↔ ¬ start < stop := by
  rw [← byteSize_eq_zero, byteSize_slice first second order]
  omega

/-- Texts between cuts in a row make up the text between the outer ones. -/
theorem slice_append_slice (first : OnBoundary text start) (second : OnBoundary text middle)
    (third : OnBoundary text stop) (order : start ≤ middle) (more : middle ≤ stop) :
    slice text start middle ++ slice text middle stop = slice text start stop := by
  obtain ⟨before, piece, after, whole, rfl, rfl⟩ := first.piece second order
  -- The third cut is made in what stands behind the second one.
  obtain ⟨front, other, rest, again, size, rfl⟩ := second.piece third more
  have same : front = before ++ piece := by
    rw [List.append_assoc] at again
    exact front_eq_of_byteSize_eq (again.symm.trans whole) (by rw [size, byteSize_append])
  subst same
  have left := slice_append before piece (other ++ rest)
  have right := slice_append (before ++ piece) other rest
  have both := slice_append before (piece ++ other) rest
  simp only [List.append_assoc, byteSize_append, Nat.add_assoc] at left right both again ⊢
  rw [again, left, right, both]

/-- The text between its two ends is the text. -/
theorem slice_whole (text : Text) : slice text 0 (byteSize text) = text := by
  have window := slice_append [] text []
  simpa using window

end Boundaries

/-- The length of the longest front part of a text that has a property. -/
structure LongestFront (property : Text → Prop) (text : Text) (length : Nat) : Prop where
  bounded : length ≤ text.length
  holds : property (text.take length)
  longest : ∀ longer, length < longer → longer ≤ text.length → ¬ property (text.take longer)

/-- Two longest front parts with the same property have the same length. -/
theorem LongestFront.unique {property : Text → Prop} {text : Text} {first second : Nat}
    (one : LongestFront property text first) (other : LongestFront property text second) :
    first = second := by
  -- Neither can be longer than the other.
  apply Nat.le_antisymm
  · apply Nat.le_of_not_lt
    intro longer
    exact other.longest first longer one.bounded one.holds
  · apply Nat.le_of_not_lt
    intro longer
    exact one.longest second longer other.bounded other.holds

end RegexLens
