import RegexLens.Proofs.Markup.Building

/-! The outermost level of markup: its spans and its texts, with the offsets at which they start. -/

namespace RegexLens.Markup

/-- The outermost spans in order, each with its byte offset, its style and what it holds. -/
def outerSpans (markup : Markup) (offset : Nat) : List (Nat × Style × Markup) :=
  match markup with
  | nil => []
  | text content rest => rest.outerSpans (offset + byteSize content)
  | span style inner rest =>
    (offset, style, inner) :: rest.outerSpans (offset + byteSize inner.plainText)

/-- The outermost texts in order, each with its byte offset. -/
def outerTexts (markup : Markup) (offset : Nat) : List (Nat × Text) :=
  match markup with
  | nil => []
  | text content rest => (offset, content) :: rest.outerTexts (offset + byteSize content)
  | span _ inner rest => rest.outerTexts (offset + byteSize inner.plainText)

/-- Whether the last node of the outermost level is a text, which further text would extend. -/
def endsInText : Markup → Bool
  | nil => false
  | text _ nil => true
  | text _ rest => rest.endsInText
  | span _ _ rest => rest.endsInText

variable {markup : Markup}

/-- A span added at the end is the last of the outermost spans. -/
theorem outerSpans_pushNested (markup : Markup) (style : Style) (inner : Markup) (offset : Nat) :
    (markup.pushNested style inner).outerSpans offset =
      markup.outerSpans offset ++ [(offset + byteSize markup.plainText, style, inner)] := by
  -- The nodes in front of the new span take up the text that stands before it.
  induction markup generalizing offset with
  | nil => simp [pushNested, outerSpans, plainText]
  | text content rest ih =>
    simp [pushNested, outerSpans, plainText, ih, Nat.add_assoc]
  | span other within rest _ ih =>
    simp [pushNested, outerSpans, plainText, ih, Nat.add_assoc]

/-- Text added at the end leaves the outermost spans where they are. -/
theorem outerSpans_pushText (markup : Markup) (content : Text) (offset : Nat) :
    (markup.pushText content).outerSpans offset = markup.outerSpans offset := by
  unfold pushText
  split
  · rfl
  · fun_induction extend markup content generalizing offset <;> simp_all [outerSpans]

/-- A span added at the end leaves the outermost texts where they are. -/
theorem outerTexts_pushNested (markup : Markup) (style : Style) (inner : Markup) (offset : Nat) :
    (markup.pushNested style inner).outerTexts offset = markup.outerTexts offset := by
  induction markup generalizing offset with
  | nil => rfl
  | text content rest ih => simp [pushNested, outerTexts, ih]
  | span other within rest _ ih => simp [pushNested, outerTexts, ih]

/-- Text added behind a span, or at the start, is one new text if it is not empty. -/
theorem outerTexts_pushText (settled : markup.endsInText = false) (content : Text) (offset : Nat) :
    (markup.pushText content).outerTexts offset =
      markup.outerTexts offset ++
        if content = [] then [] else [(offset + byteSize markup.plainText, content)] := by
  unfold pushText
  split
  · simp
  · fun_induction extend markup content generalizing offset with
    | case1 => simp [outerTexts, plainText]
    -- A text at the end is ruled out.
    | case2 last => simp [endsInText] at settled
    -- The last node is further on, where the text is put.
    | case3 other rest last ih =>
      have further : rest.endsInText = false := by simpa [endsInText] using settled
      simp [outerTexts, plainText, ih further, Nat.add_assoc]
    | case4 style inner rest ih =>
      simp [outerTexts, plainText, ih settled, Nat.add_assoc]

/-- Markup to which a span has been added does not end in a text. -/
theorem endsInText_pushNested (markup : Markup) (style : Style) (inner : Markup) :
    (markup.pushNested style inner).endsInText = false := by
  induction markup with
  | nil => rfl
  | text content rest ih =>
    -- Behind this text there is at least the new span.
    cases rest <;> exact ih
  | span other within rest _ ih => exact ih

/-- Markup shows a text outside of every span, at a byte offset. -/
def HasPlain (markup : Markup) (offset place : Nat) (content : Text) : Prop :=
  -- The text can be a part of a longer one.
  ∃ start before after, (start, before ++ content ++ after) ∈ markup.outerTexts offset ∧
    start + byteSize before = place

/-- Further text leaves what stands outside of the spans where it is. -/
theorem HasPlain.pushText {offset place : Nat} {content : Text}
    (plain : markup.HasPlain offset place content) (further : Text) :
    (markup.pushText further).HasPlain offset place content := by
  obtain ⟨start, before, after, found, rfl⟩ := plain
  unfold Markup.pushText
  split
  · exact ⟨start, before, after, found, rfl⟩
  · fun_induction extend markup further generalizing offset with
    | case1 => simp [outerTexts] at found
    -- A last text grows at its end.
    | case2 last =>
      simp only [outerTexts, List.mem_singleton, Prod.mk.injEq] at found
      obtain ⟨rfl, rfl⟩ := found
      exact ⟨start, before, after ++ further, by simp [outerTexts], rfl⟩
    -- The text in front stays, and what is found behind it stays where it is.
    | case3 other rest last ih =>
      rcases List.mem_cons.mp found with here | later
      · exact ⟨start, before, after, List.mem_cons.mpr (.inl here), rfl⟩
      · obtain ⟨place, front, behind, there, same⟩ := ih later
        exact ⟨place, front, behind, List.mem_cons.mpr (.inr there), same⟩
    | case4 style inner rest ih => exact ih found

/-- A further span leaves what stands outside of the spans where it is. -/
theorem HasPlain.pushNested {offset place : Nat} {content : Text}
    (plain : markup.HasPlain offset place content) (style : Style) (inner : Markup) :
    (markup.pushNested style inner).HasPlain offset place content := by
  obtain ⟨start, before, after, found, same⟩ := plain
  exact ⟨start, before, after, by rwa [outerTexts_pushNested], same⟩

/-- Added text stands outside of every span, behind all that was there. -/
theorem hasPlain_pushText (markup : Markup) {content : Text} (solid : content ≠ [])
    (offset : Nat) :
    (markup.pushText content).HasPlain offset (offset + byteSize markup.plainText) content := by
  unfold Markup.pushText
  rw [if_neg solid]
  fun_induction extend markup content generalizing offset with
  | case1 => exact ⟨offset, [], [], by simp [outerTexts], by simp [plainText]⟩
  -- The text joins the one that stood at the end.
  | case2 last => exact ⟨offset, last, [], by simp [outerTexts], by simp [plainText]⟩
  -- The place counts the text of the nodes in front.
  | case3 other rest last ih =>
    obtain ⟨start, before, after, found, place⟩ := ih (offset + byteSize other)
    exact ⟨start, before, after, List.mem_cons.mpr (.inr found),
      by simp [plainText, place, Nat.add_assoc]⟩
  | case4 style inner rest ih =>
    obtain ⟨start, before, after, found, place⟩ := ih (offset + byteSize inner.plainText)
    exact ⟨start, before, after, found, by simp [plainText, place, Nat.add_assoc]⟩

/-- The spans that are counted are those of the outermost ones that have one of the styles. -/
theorem countSpans_eq_countP (markup : Markup) (styles : List Style) (offset : Nat) :
    markup.countSpans styles =
      (markup.outerSpans offset).countP fun entry => styles.contains entry.2.1 := by
  -- A span counts on its own, and so it is looked at together with its style.
  induction markup generalizing offset with
  | nil => rfl
  | text content rest ih => exact ih _
  | span style inner rest _ ih =>
    rw [countSpans, outerSpans, List.countP_cons, ih]

end RegexLens.Markup
