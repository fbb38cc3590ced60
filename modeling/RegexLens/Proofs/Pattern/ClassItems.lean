import RegexLens.Proofs.Pattern.ClassParts
import RegexLens.Proofs.Pattern.EscapeCode

/-! The items of a class cover its contents, and a closed class leaves no backslash on its own. -/

namespace RegexLens

/-- Every backslash has a character to apply to, when they are paired from the front. -/
def EscapesPaired : Text → Prop
  | [] => True
  -- A backslash at the very end is the only one that stays alone.
  | ['\\'] => False
  | '\\' :: _ :: rest => EscapesPaired rest
  | _ :: rest => EscapesPaired rest

/-- A character that is no backslash takes no part in the pairing. -/
theorem escapesPaired_cons {symbol : Char} {rest : Text} (plain : symbol ≠ '\\') :
    EscapesPaired (symbol :: rest) ↔ EscapesPaired rest := by
  -- Neither of the clauses for a backslash applies.
  rw [EscapesPaired.eq_4 symbol rest (fun same _ => plain same) (fun _ _ same _ => plain same)]

/-- A text is read from the front: a backslash goes together with the character behind it, and any
other character goes alone. -/
@[elab_as_elim]
theorem escapeInduction {motive : Text → Prop} (nil : motive []) (alone : motive ['\\'])
    (escape : ∀ escaped rest, motive rest → motive ('\\' :: escaped :: rest))
    (plain : ∀ symbol rest, symbol ≠ '\\' → motive rest → motive (symbol :: rest)) (text : Text) :
    motive text := by
  fun_induction EscapesPaired text with
  | case1 => exact nil
  | case2 => exact alone
  | case3 escaped rest ih => exact escape escaped rest ih
  | case4 symbol rest notAlone notEscape ih =>
    refine plain symbol rest ?_ ih
    rintro rfl
    cases rest with
    | nil => exact notAlone rfl rfl
    | cons next more => exact notEscape next more rfl rfl

/-- Behind text with paired backslashes, further text is paired when it is paired alone. -/
theorem escapesPaired_append {first : Text} (paired : EscapesPaired first) (second : Text) :
    EscapesPaired (first ++ second) ↔ EscapesPaired second := by
  induction first using escapeInduction with
  | nil => rfl
  | alone => exact paired.elim
  | escape escaped rest ih => exact ih paired
  | plain symbol rest other ih =>
    rw [List.cons_append, escapesPaired_cons other]
    exact ih ((escapesPaired_cons other).mp paired)

/-- Characters without a backslash can be dropped from the front. -/
theorem EscapesPaired.drop {text : Text} (paired : EscapesPaired text) {count : Nat}
    (plain : ∀ symbol ∈ text.take count, symbol ≠ '\\') : EscapesPaired (text.drop count) := by
  -- The characters go one by one, and each of them leaves the others paired.
  induction count generalizing text with
  | zero => exact paired
  | succ count ih =>
    cases text with
    | nil => exact paired
    | cons head tail =>
      simp only [List.take_succ_cons, List.mem_cons, forall_eq_or_imp] at plain
      exact ih ((escapesPaired_cons plain.1).mp paired) plain.2

/-- In a class body that ends at a closing bracket, every backslash has its character. -/
theorem escapesPaired_classBody (body : Text)
    (closed : (body.drop (classBodyLength body)).take 1 = [']']) :
    EscapesPaired (body.take (classBodyLength body)) := by
  -- The body is measured by the same pairing, and only the end of the text can break it.
  fun_induction classBodyLength body with
  | case1 => trivial
  | case2 rest => trivial
  -- An escaped pair is taken off as a whole.
  | case3 escaped rest ih => exact ih (by simpa using closed)
  | case4 symbol rest bracket escape ih =>
    have inner : EscapesPaired (rest.take (classBodyLength rest)) := ih (by simpa using closed)
    -- A backslash here would be the last character, and then nothing closes the body.
    by_cases backslash : symbol = '\\'
    · cases rest with
      | nil => simp [classBodyLength] at closed
      | cons head tail => exact (escape head tail backslash rfl).elim
    · exact (escapesPaired_cons backslash).mpr inner

namespace ClassParts

/-- Contents that a bracket closes hold a character and leave no backslash on its own. -/
theorem ofBody_closed {opening body : Text} (closed : (ofBody opening body).closing = [']']) :
    (ofBody opening body).contents ≠ [] ∧ EscapesPaired (ofBody opening body).contents := by
  simp only [ofBody] at closed ⊢
  fun_cases classContentsLength body with
  | case1 rest =>
    -- The bracket at the front is one character of the contents and no backslash.
    have inner := escapesPaired_classBody rest (by simpa [classContentsLength] using closed)
    exact ⟨by simp, (escapesPaired_cons (by decide)).mpr inner⟩
  | case2 =>
    rw [classContentsLength.eq_2 _ (by assumption)] at closed
    refine ⟨?_, escapesPaired_classBody body closed⟩
    intro empty
    -- Empty contents would leave a closing bracket at the front, which belongs to the contents.
    rcases List.take_eq_nil_iff.mp empty with none | rfl
    · rw [none, List.drop_zero] at closed
      cases body <;> simp_all
    · simp at closed

/-- The contents of a closed class hold a character and leave no backslash on its own. -/
theorem contents_of_isClosed {tail : Text} (closed : (split ('[' :: tail)).isClosed = true) :
    (split ('[' :: tail)).contents ≠ [] ∧ EscapesPaired (split ('[' :: tail)).contents := by
  have ending := closing_of_isClosed closed
  -- Both openings lead to the same measuring of the contents.
  rcases split_cases tail with ⟨body, rfl, parts⟩ | ⟨_, parts⟩
  all_goals
    rw [parts] at ending ⊢
    exact ofBody_closed ending

end ClassParts

namespace ClassItem

/-- An item as it is cut off the front of class contents. -/
def Shaped (item : ClassItem) : Prop :=
  -- Whatever follows the item stays in the tail.
  ∃ symbol tail, item = first symbol tail

/-- An item starts with the character that it is cut from and goes on with what follows that. -/
theorem first_text (symbol : Char) (tail : Text) :
    (first symbol tail).text = symbol :: tail.take ((first symbol tail).text.length - 1) := by
  fun_cases first symbol tail with
  | case1 => rfl
  -- A hyphen is one character.
  | case2 => simp [text]
  -- The text of an escape has the backslash in front of what it applies to.
  | case3 =>
    -- A run takes the characters up to the next hyphen or backslash.
    simp only [text, List.length_cons, Nat.add_sub_cancel]
    rw [take_length_of_append List.takeWhile_append_dropWhile]

/-- Every item holds a character. -/
theorem text_ne_nil (item : ClassItem) : item.text ≠ [] := by
  -- A hyphen, a backslash and the first character of a run are there in any case.
  cases item <;> simp [text]

/-- The items of class contents are the contents, cut into pieces. -/
theorem all_text (contents : Text) : (all contents).flatMap text = contents := by
  fun_induction all contents with
  | case1 => rfl
  | case2 symbol tail item ih =>
    -- The item is a front part of the contents, and the others are the rest.
    calc item.text ++ (all (tail.drop (item.text.length - 1))).flatMap text
        = (symbol :: tail.take (item.text.length - 1)) ++ tail.drop (item.text.length - 1) :=
          congr (congrArg _ (first_text symbol tail)) ih
      _ = symbol :: tail := by simp

/-- Every item of class contents has been cut off some text. -/
theorem all_shaped (contents : Text) : ∀ item ∈ all contents, item.Shaped := by
  fun_induction all contents with
  | case1 => simp
  | case2 symbol tail item ih =>
    -- The first item is cut off the contents, and the others are cut off what is left.
    intro other member
    rcases List.mem_cons.mp member with rfl | member
    · exact ⟨symbol, tail, rfl⟩
    · exact ih other member

/-- What a backslash applies to in class contents has one of the forms of a sequence. -/
theorem Shaped.sequenceForm {sequence : Text} (shaped : (escape sequence).Shaped) :
    SequenceForm sequence := by
  obtain ⟨symbol, tail, cut⟩ := shaped
  unfold first at cut
  split at cut
  · -- Only a backslash at the front makes an escape.
    contradiction
  · obtain rfl := ClassItem.escape.inj cut
    exact (classEscaped_take tail).sequenceForm
  · contradiction

/-- The code of an item is the one that the item is meant to denote. -/
theorem Shaped.itemCode_iff {item : ClassItem} (shaped : item.Shaped) {code? : Option Nat} :
    ItemCode item code? ↔ item.code? = code? := by
  refine ⟨ItemCode.eq_code?, ?_⟩
  rintro rfl
  cases item with
  | run symbol others => exact .run symbol others
  | hyphen => exact .hyphen
  | escape sequence => exact shaped.sequenceForm.itemCode_iff.mpr rfl

/-- A backslash in front of a character of a class applies to that character at least. -/
theorem take_classEscapeLength (next : Char) (rest : Text) :
    ∃ more, (next :: rest).take (classEscapeLength (next :: rest)) = next :: rest.take more := by
  have positive := classEscapeLength_pos next rest
  obtain ⟨more, length⟩ := Nat.exists_eq_succ_of_ne_zero (Nat.ne_of_gt positive)
  exact ⟨more, by rw [length, List.take_succ_cons]⟩

/-- Cutting an item off leaves the pairing intact, and the item is no backslash on its own. -/
theorem first_paired {symbol : Char} {tail : Text} (paired : EscapesPaired (symbol :: tail)) :
    first symbol tail ≠ escape [] ∧
      EscapesPaired (tail.drop ((first symbol tail).text.length - 1)) := by
  fun_cases first symbol tail with
  -- A hyphen leaves all that follows as it is.
  | case1 => exact ⟨by simp, paired⟩
  | case2 =>
    cases tail with
    | nil => exact paired.elim
    | cons next rest =>
      -- The sequence pairs the backslash with its first character and holds no other backslash.
      obtain ⟨more, cut⟩ := take_classEscapeLength next rest
      have form := (classEscaped_take (next :: rest)).sequenceForm
      simp only [cut] at form ⊢
      have plain : ∀ other ∈ rest.take (rest.take more).length, other ≠ '\\' := by
        rw [take_length_of_append (List.take_append_drop _ _)]
        simpa using form.ne_backslash
      have inner : EscapesPaired rest := paired
      exact ⟨by simp, by simpa [text] using inner.drop plain⟩
  | case3 =>
    rename_i hyphen backslash
    have inner : EscapesPaired tail := (escapesPaired_cons backslash).mp paired
    refine ⟨by simp, inner.drop ?_⟩
    -- A run stops in front of the next backslash.
    intro other member
    simp only [text, List.length_cons, Nat.add_sub_cancel,
      take_length_of_append List.takeWhile_append_dropWhile] at member
    have within := List.all_eq_true.mp List.all_takeWhile other member
    simp only [Bool.and_eq_true, bne_iff_ne] at within
    exact within.1

/-- In the contents of a closed class every backslash applies to something. -/
theorem all_ne_dangling {contents : Text} (paired : EscapesPaired contents) :
    escape [] ∉ all contents := by
  -- Each item leaves a tail in which the backslashes are still paired.
  fun_induction all contents with
  | case1 => simp
  | case2 symbol tail item ih =>
    obtain ⟨whole, inner⟩ := first_paired paired
    simp only [List.mem_cons, not_or]
    exact ⟨fun same => whole same.symm, ih inner⟩

end ClassItem

end RegexLens
