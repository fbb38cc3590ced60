import RegexLens.Proofs.Pattern.ClassItems

/-! Where a class ends: at the first bracket that can close it, whatever stands behind that one. -/

namespace RegexLens

/-- Characters among which no bracket closes a class. -/
inductive ClassBody : Text → Prop
  /-- No characters at all. -/
  | nil : ClassBody []
  /-- A backslash with the character that it escapes, which may be a bracket. -/
  | escaped (symbol : Char) (rest : Text) (body : ClassBody rest) :
      ClassBody ('\\' :: symbol :: rest)
  /-- A character that is neither a backslash nor a closing bracket. -/
  | ordinary (symbol : Char) (rest : Text) (bracket : symbol ≠ ']') (plain : symbol ≠ '\\')
      (body : ClassBody rest) : ClassBody (symbol :: rest)

/-- Contents that a bracket behind them closes, of which the first character may be a bracket. -/
def ClosedContents (contents : Text) : Prop :=
  contents ≠ [] ∧ (ClassBody contents ∨ ∃ rest, contents = ']' :: rest ∧ ClassBody rest)

/-- The parts of a class at the front of a text, by the rules for each of them. -/
structure ClassParts.Cuts (parts : ClassParts) (text : Text) : Prop where
  /-- The parts are the text, cut into pieces. -/
  whole : text = parts.text ++ parts.after
  /-- The mark for a complement belongs to the opening whenever it is there. -/
  opening : parts.opening = ['[', '^'] ∨ (parts.opening = ['['] ∧ ¬ ['[', '^'] <+: text)
  /-- The class ends at a bracket, or it takes everything because no bracket can close it. -/
  ending : (parts.closing = [']'] ∧ ClosedContents parts.contents) ∨
    (parts.closing = [] ∧ parts.after = [] ∧
      ∀ front rest, parts.contents = front ++ ']' :: rest → ¬ ClosedContents front)

/-- A body is measured up to the bracket behind it. -/
theorem ClassBody.length {body : Text} (closable : ClassBody body) (after : Text) :
    classBodyLength (body ++ ']' :: after) = body.length := by
  induction closable with
  | nil => rfl
  | escaped symbol rest _ ih => simp [classBodyLength, ih]
  | ordinary symbol rest bracket plain _ ih =>
    -- The character is counted alone, since it neither ends the body nor escapes anything.
    rw [List.cons_append, classBodyLength.eq_4 _ _ bracket fun _ _ same _ => plain same, ih,
      List.length_cons]

/-- What is measured up to a closing bracket is a body. -/
theorem classBody_take (body : Text) (closed : (body.drop (classBodyLength body)).take 1 = [']']) :
    ClassBody (body.take (classBodyLength body)) := by
  -- The length is measured character by character, with an escaped one counted along.
  fun_induction classBodyLength body with
  | case1 => exact .nil
  | case2 rest => exact .nil
  | case3 symbol rest ih => exact .escaped symbol _ (ih (by simpa using closed))
  | case4 symbol rest bracket escape ih =>
    -- The bracket that closes the body stands behind what is left as well.
    have inner : ClassBody (rest.take (classBodyLength rest)) := ih (by simpa using closed)
    refine .ordinary symbol _ (fun same => bracket same) ?_ inner
    -- A backslash here would be the last character, and then nothing closes the body.
    intro backslash
    cases rest with
    | nil => simp [classBodyLength] at closed
    | cons head tail => exact escape head tail backslash rfl

/-- Contents are measured up to the bracket that closes them. -/
theorem ClosedContents.length {contents : Text} (closable : ClosedContents contents)
    (after : Text) : classContentsLength (contents ++ ']' :: after) = contents.length := by
  obtain ⟨nonempty, body | ⟨rest, rfl, body⟩⟩ := closable
  · obtain ⟨first, rest, rfl⟩ := List.exists_cons_of_ne_nil nonempty
    -- A body never starts with the bracket that is ordinary at the front of contents.
    have other : first ≠ ']' := by
      rintro rfl
      cases body with
      | ordinary _ _ bracket => exact bracket rfl
    rw [List.cons_append, classContentsLength.eq_2, ← List.cons_append, body.length after]
    intro more same
    exact other (List.cons.inj same).1
  · rw [List.cons_append, classContentsLength, body.length after, List.length_cons]

/-- What is measured up to a closing bracket are contents that it closes. -/
theorem closedContents_take (body : Text)
    (closed : (body.drop (classContentsLength body)).take 1 = [']']) :
    ClosedContents (body.take (classContentsLength body)) := by
  have nonempty : body.take (classContentsLength body) ≠ [] :=
    (@ClassParts.ofBody_closed [] body closed).1
  refine ⟨nonempty, ?_⟩
  -- A bracket at the front is the only one that does not close the class.
  fun_cases classContentsLength body with
  | case1 rest =>
    -- Behind an ordinary bracket at the front a body follows.
    refine .inr ⟨_, List.take_succ_cons, classBody_take rest ?_⟩
    simpa [classContentsLength] using closed
  | case2 =>
    -- Without it the contents are a body from the start.
    rename_i unmarked
    rw [classContentsLength.eq_2 _ unmarked] at closed
    exact .inl (classBody_take body closed)

namespace ClassParts

variable {parts : ClassParts} {opening body text : Text}

/-- The parts that are found behind an opening follow the rules. -/
theorem cuts_ofBody (starts : opening = ['[', '^'] ∨
    (opening = ['['] ∧ ¬ ['[', '^'] <+: opening ++ body)) :
    (ofBody opening body).Cuts (opening ++ body) where
  whole := by
    simp only [ofBody, ClassParts.text, List.append_assoc, List.take_append_drop]
  opening := starts
  ending := by
    rcases drop_classContentsLength body with absent | present
    · -- Nothing is left behind the contents, so they are the whole body.
      have rest : body.drop (classContentsLength body) = [] := by simpa using absent
      have all : body.take (classContentsLength body) = body :=
        List.take_of_length_le (List.drop_eq_nil_iff.mp rest)
      refine .inr ⟨absent, by simp [ofBody, rest], ?_⟩
      intro front more cut closable
      simp only [ofBody, all] at cut
      -- A bracket that closes a front part would have been found.
      rw [cut, closable.length more] at rest
      simp at rest
    · exact .inl ⟨present, closedContents_take body present⟩

/-- The parts that a class is cut into follow the rules. -/
theorem cuts_split (tail : Text) : (split ('[' :: tail)).Cuts ('[' :: tail) := by
  rcases split_cases tail with ⟨body, rfl, parts⟩ | ⟨unmarked, parts⟩
  · rw [parts]
    exact cuts_ofBody (.inl rfl)
  · rw [parts]
    refine cuts_ofBody (.inr ⟨rfl, ?_⟩)
    -- The mark would be the first character behind the bracket.
    intro marked
    obtain ⟨rest, same⟩ := marked
    apply unmarked
    have behind : '^' :: rest = tail := (List.cons.inj same).2
    rw [← behind, List.head?_cons]

/-- The opening of a class is determined by the text. -/
theorem Cuts.split_eq (cuts : parts.Cuts text) :
    split text = ofBody parts.opening (parts.contents ++ parts.closing ++ parts.after) := by
  -- Whatever the opening is, the rest of the class stands behind it.
  have whole : text = parts.opening ++ (parts.contents ++ parts.closing ++ parts.after) := by
    rw [cuts.whole, ClassParts.text]
    simp only [List.append_assoc]
  rcases cuts.opening with marked | ⟨plain, unmarked⟩
  · -- With its mark the opening is read as the one of a complement.
    rw [whole, marked]
    exact split_complement _
  · rw [whole, plain] at unmarked ⊢
    refine split_plain ?_
    intro starts
    -- A mark behind the bracket would be part of the opening.
    obtain ⟨rest, same⟩ := List.head?_eq_some_iff.mp starts
    exact unmarked ⟨rest, congrArg ('[' :: ·) same.symm⟩

/-- However a text is cut, these are the parts that are found. -/
theorem Cuts.eq_split (cuts : parts.Cuts text) : parts = split text := by
  have found := cuts.split_eq
  rcases cuts.ending with ⟨closing, closable⟩ | ⟨closing, after, unclosable⟩
  · -- The contents are measured up to the bracket, and behind it the rest is left.
    have measured := closable.length parts.after
    rw [found, closing]
    simp only [ofBody, List.append_assoc, List.singleton_append, measured, List.take_left,
      List.drop_left, List.take_succ_cons, List.take_zero, List.drop_succ_cons, List.drop_zero]
    rw [← closing]
  · rw [closing, after, List.append_nil, List.append_nil] at found
    rw [found]
    rcases drop_classContentsLength parts.contents with absent | present
    · -- Without a bracket the contents take everything.
      have rest : parts.contents.drop (classContentsLength parts.contents) = [] := by
        simpa using absent
      have all : parts.contents.take (classContentsLength parts.contents) = parts.contents :=
        List.take_of_length_le (List.drop_eq_nil_iff.mp rest)
      simp only [ofBody, rest, all, List.take_nil, List.drop_nil]
      exact congr (congrArg (ClassParts.mk parts.opening parts.contents) closing) after
    · -- A bracket behind the measured contents would close them.
      obtain ⟨more, starts⟩ : ∃ more,
          parts.contents.drop (classContentsLength parts.contents) = ']' :: more := by
        cases remaining : parts.contents.drop (classContentsLength parts.contents) with
        | nil => simp [remaining] at present
        | cons head more => exact ⟨more, by simpa [remaining] using present⟩
      have cut := (List.take_append_drop (classContentsLength parts.contents) parts.contents).symm
      rw [starts] at cut
      exact absurd (closedContents_take _ present) (unclosable _ _ cut)

/-- There is one way to cut a class, and it is the one that is found. -/
theorem cuts_iff {tail : Text} : parts.Cuts ('[' :: tail) ↔ parts = split ('[' :: tail) := by
  refine ⟨Cuts.eq_split, ?_⟩
  rintro rfl
  exact cuts_split tail

/-- Text behind a closed class is no part of it. -/
theorem Cuts.append (cuts : parts.Cuts text) (closed : parts.closing = [']']) (further : Text) :
    { parts with after := parts.after ++ further }.Cuts (text ++ further) where
  -- What is added stands behind everything else.
  whole := by
    show text ++ further = parts.text ++ (parts.after ++ further)
    rw [← List.append_assoc, ← cuts.whole]
  opening := by
    rcases cuts.opening with marked | ⟨plain, unmarked⟩
    · exact .inl marked
    · refine .inr ⟨plain, ?_⟩
      -- The text holds the bracket and the contents, so the mark would have to be in it.
      intro marked
      apply unmarked
      refine List.prefix_of_prefix_length_le marked (List.prefix_append text further) ?_
      rw [cuts.whole, ClassParts.text, plain, closed]
      simp only [List.length_append, List.length_cons, List.length_nil]
      omega
  ending := by
    -- The class ends with its bracket, so the ending without one is excluded.
    rcases cuts.ending with ended | ⟨none, _⟩
    · exact .inl ended
    · rw [closed] at none
      contradiction

/-- Whatever else stands behind a closed class, the class is cut in the same way. -/
theorem Cuts.kept (cuts : parts.Cuts text) (closed : parts.closing = [']']) (further : Text) :
    { parts with after := further }.Cuts (parts.text ++ further) := by
  -- The class is cut off first, and then the other text is put behind it.
  have alone : { parts with after := [] }.Cuts parts.text := by
    refine ⟨(List.append_nil _).symm, ?_, ?_⟩
    · -- The opening has its mark or not, which the text in front of the rest shows.
      rcases cuts.opening with marked | ⟨plain, unmarked⟩
      · exact .inl marked
      · refine .inr ⟨plain, fun marked => unmarked ?_⟩
        rw [cuts.whole]
        exact marked.trans (List.prefix_append _ _)
    · rcases cuts.ending with ended | ⟨none, _⟩
      · exact .inl ended
      · rw [closed] at none
        contradiction
  exact alone.append closed further

end ClassParts

/-- The annotation of a class depends on its parts, and not on what stands behind them. -/
theorem annotateClass_congr {first second : Text} (offset : Nat)
    (opening : (ClassParts.split first).opening = (ClassParts.split second).opening)
    (contents : (ClassParts.split first).contents = (ClassParts.split second).contents)
    (closing : (ClassParts.split first).closing = (ClassParts.split second).closing) :
    annotateClass first offset = annotateClass second offset := by
  unfold annotateClass
  generalize ClassParts.split first = one at opening contents closing ⊢
  generalize ClassParts.split second = other at opening contents closing ⊢
  cases one
  cases other
  -- Two cuts that agree in these parts differ in the rest only, which is never looked at.
  subst opening contents closing
  rfl

end RegexLens
