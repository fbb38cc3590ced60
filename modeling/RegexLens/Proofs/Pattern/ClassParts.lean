import RegexLens.Proofs.Pattern.Tokens

/-! The parts of a class cover it, can be found again in the class alone, and pair its escapes. -/

namespace RegexLens

/-- Cutting a class body one character behind its end does not change where it ends. -/
theorem classBodyLength_take (body : Text) :
    classBodyLength (body.take (classBodyLength body + 1)) = classBodyLength body := by
  -- The length is found from the front, so only the character that ends the body must stay.
  fun_induction classBodyLength body with
  | case1 => rfl
  -- The bracket that ends the body is kept by the cut.
  | case2 rest => simp [classBodyLength]
  -- An escaped character is skipped together with its backslash.
  | case3 escaped rest ih => simp [classBodyLength, ih]
  | case4 symbol rest closing escape ih =>
    -- A backslash that has lost what it applies to is still one character.
    rw [List.take_succ_cons, classBodyLength.eq_4 _ _ closing, ih]
    intro next others same cut
    cases rest with
    | nil => simp at cut
    | cons head tail => exact escape head tail same rfl
-- Either nothing is left behind the backslash, or the escape was there before the cut.

/-- A body ends at a closing bracket or with the text. -/
theorem drop_classBodyLength (body : Text) :
    (body.drop (classBodyLength body)).take 1 = [] ∨
      (body.drop (classBodyLength body)).take 1 = [']'] := by
  -- The measuring stops at a bracket or runs out of text.
  fun_induction classBodyLength body with
  | case1 => exact .inl rfl
  | case2 rest => exact .inr rfl
  | case3 escaped rest ih => simpa using ih
  | case4 symbol rest closing escape ih => simpa using ih

/-- Cutting class contents one character behind their end does not change where they end. -/
theorem classContentsLength_take (body : Text) :
    classContentsLength (body.take (classContentsLength body + 1)) = classContentsLength body := by
  -- A bracket at the front belongs to the contents, and a plain body follows it.
  fun_cases classContentsLength body with
  -- The bracket at the front is skipped on both sides.
  | case1 rest => simpa [classContentsLength] using classBodyLength_take rest
  | case2 =>
    -- What is cut off a body that starts with another character starts with that character too.
    rw [classContentsLength.eq_2 _ ?_, classBodyLength_take]
    intro rest cut
    cases body <;> simp_all

/-- The contents end at a closing bracket or with the text. -/
theorem drop_classContentsLength (body : Text) :
    (body.drop (classContentsLength body)).take 1 = [] ∨
      (body.drop (classContentsLength body)).take 1 = [']'] := by
  fun_cases classContentsLength body with
  -- What is left behind the contents is left behind a body.
  | case1 rest => simpa using drop_classBodyLength rest
  | case2 => exact drop_classBodyLength body

namespace ClassParts

/-- The parts of a class, given its opening and the text behind it. -/
def ofBody (opening body : Text) : ClassParts :=
  let rest := body.drop (classContentsLength body)
  ⟨opening, body.take (classContentsLength body), rest.take 1, rest.drop 1⟩

/-- A complement mark directly behind the bracket belongs to the opening. -/
theorem split_complement (body : Text) :
    split ('[' :: '^' :: body) = ofBody ['[', '^'] body := by
  -- The two characters are taken for the opening, and the rest is measured as it stands.
  simp [split, ofBody]

/-- Without a complement mark the bracket alone is the opening. -/
theorem split_plain {body : Text} (unmarked : body.head? ≠ some '^') :
    split ('[' :: body) = ofBody ['['] body := by
  -- Only the first character could be a complement mark.
  cases body with
  | nil => simp [split, ofBody]
  | cons head tail =>
    have other : head ≠ '^' := by simpa using unmarked
    simp [split, ofBody, other]

/-- A class has one of two openings, and its other parts follow from the text behind it. -/
theorem split_cases (tail : Text) :
    (∃ body, tail = '^' :: body ∧ split ('[' :: tail) = ofBody ['[', '^'] body) ∨
      (tail.head? ≠ some '^' ∧ split ('[' :: tail) = ofBody ['['] tail) := by
  -- The opening depends on the first character alone.
  by_cases marked : tail.head? = some '^'
  · obtain ⟨body, rfl⟩ := List.head?_eq_some_iff.mp marked
    exact .inl ⟨body, rfl, split_complement body⟩
  · exact .inr ⟨marked, split_plain marked⟩

/-- A class is closed by a bracket or not at all. -/
theorem closing_eq (text : Text) : (split text).closing = [] ∨ (split text).closing = [']'] :=
  drop_classContentsLength _

/-- A closed class ends in its bracket. -/
theorem closing_of_isClosed {text : Text} (closed : (split text).isClosed = true) :
    (split text).closing = [']'] := by
  -- Without a bracket the class would not count as closed.
  rcases closing_eq text with absent | present
  · simp [isClosed, absent] at closed
  · exact present

/-- The class in a text, without its opening, goes one character beyond its contents at most. -/
theorem ofBody_text (opening body : Text) :
    (ofBody opening body).text = opening ++ body.take (classContentsLength body + 1) := by
  -- The contents and the bracket together are one longer front part.
  simp only [ofBody, ClassParts.text, List.append_assoc, List.take_add]

/-- A class on its own has nothing behind it. -/
theorem ofBody_after (opening body : Text) :
    ofBody opening (body.take (classContentsLength body + 1)) =
      { ofBody opening body with after := [] } := by
  -- The contents end at the same place, and the cut keeps one character behind it.
  simp only [ofBody, classContentsLength_take, List.take_take, List.drop_take, List.drop_drop]
  simp

/-- A class cut out of a text has the same parts as in the text, and nothing behind it. -/
theorem split_text (tail : Text) :
    split (split ('[' :: tail)).text = { split ('[' :: tail) with after := [] } := by
  rcases split_cases tail with ⟨body, rfl, parts⟩ | ⟨unmarked, parts⟩
  · -- The cut leaves the complement mark where it is.
    rw [parts, ofBody_text, ← ofBody_after]
    exact split_complement _
  · -- What is cut off the front of an unmarked body is unmarked too.
    have stillUnmarked :
        (tail.take (classContentsLength tail + 1)).head? ≠ some '^' := by
      simpa [List.head?_take] using unmarked
    rw [parts, ofBody_text, ← ofBody_after]
    exact split_plain stillUnmarked

end ClassParts

/-- A class token is a bracket with what belongs to it, and its parts are all of it. -/
theorem TokenForm.of_characterClass {text : Text} (form : TokenForm .characterClass text) :
    (∃ tail, text = '[' :: tail) ∧ (ClassParts.split text).text = text := by
  cases form with
  | characterClass tail =>
    -- The token was cut by these parts, and cutting it once more changes nothing.
    exact ⟨⟨_, ClassParts.split_text_cons '[' tail⟩, by rw [ClassParts.split_text]; rfl⟩

end RegexLens
