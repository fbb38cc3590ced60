import RegexLens.Proofs.Markup.Spans

/-! Markup that grows: the outermost nodes keep their places, and only a last text gets longer. -/

namespace RegexLens.Markup

/-- The outermost text at a position, with its byte offset. -/
def textAt? (index offset : Nat) : Markup → Option (Nat × Text)
  | nil => none
  | text content rest =>
    match index with
    | 0 => some (offset, content)
    | index + 1 => rest.textAt? index (offset + byteSize content)
  | span _ inner rest =>
    -- Spans are counted among the nodes but are no texts.
    match index with
    | 0 => none
    | index + 1 => rest.textAt? index (offset + byteSize inner.plainText)

/-- Markup that has grown out of other markup: each span is there, and each text at least. -/
structure Extends (before after : Markup) : Prop where
  length : before.length ≤ after.length
  span : ∀ {index found}, before.spanAt? index 0 = some found → after.spanAt? index 0 = some found
  text : ∀ {index place content}, before.textAt? index 0 = some (place, content) →
    ∃ more, after.textAt? index 0 = some (place, content ++ more)

variable {style own : Style} {index offset place : Nat} {inner markup before middle after : Markup}
  {content : Text}

/-- An added span is one more node. -/
@[simp] theorem length_pushNested (markup : Markup) (style : Style) (inner : Markup) :
    (markup.pushNested style inner).length = markup.length + 1 := by
  fun_induction pushNested markup style inner <;> simp_all [length]

/-- Added text is one more node at most. -/
theorem length_le_pushText (markup : Markup) (content : Text) :
    markup.length ≤ (markup.pushText content).length := by
  -- Text goes into the last node, or it becomes a new one.
  unfold pushText
  split
  · exact Nat.le_refl _
  · fun_induction extend markup content <;> simp_all [length]

/-- The texts that are there keep their places when a span is added. -/
theorem textAt?_pushNested {found : Nat × Text} (there : markup.textAt? index offset = some found)
    (own : Style) (inner : Markup) :
    (markup.pushNested own inner).textAt? index offset = some found := by
  -- A position that is taken stays taken, because the new span goes behind all nodes.
  induction markup generalizing index offset with
  | nil => simp [textAt?] at there
  | text content rest ih =>
    cases index with
    | zero => exact there
    | succ index => exact ih there
  | span other within rest _ ih =>
    cases index with
    | zero => simp [textAt?] at there
    | succ index => exact ih there

/-- The texts that are there keep their places when text is added, and the last one gets longer. -/
theorem textAt?_pushText (there : markup.textAt? index offset = some (place, content))
    (further : Text) :
    ∃ more, (markup.pushText further).textAt? index offset = some (place, content ++ more) := by
  unfold pushText
  split
  · -- Without text nothing is added.
    exact ⟨[], by simpa using there⟩
  · fun_induction extend markup further generalizing index offset with
    | case1 => simp [textAt?] at there
    | case2 last =>
      -- The last text takes up what is added.
      cases index with
      | zero =>
        obtain ⟨rfl, rfl⟩ := by simpa [textAt?] using there
        exact ⟨_, rfl⟩
      | succ index => simp [textAt?] at there
    -- The last text is further on, so a text at the front stays as it is.
    | case3 other rest content ih =>
      cases index with
      | zero => exact ⟨[], by simpa [textAt?] using there⟩
      | succ index => simp_all [textAt?]
    | case4 own inner rest ih =>
      cases index with
      | zero => simp [textAt?] at there
      | succ index => simp_all [textAt?]

/-- Text behind an added span is a node of its own. -/
theorem textAt?_pushText_pushNested (markup : Markup) (own : Style) (inner : Markup)
    (offset : Nat) (solid : content ≠ []) :
    ((markup.pushNested own inner).pushText content).textAt? (markup.length + 1) offset =
      some (offset + byteSize (markup.plainText ++ inner.plainText), content) := by
  unfold pushText
  rw [if_neg solid]
  -- Each node in front moves the offset by its text and the position by one.
  induction markup generalizing offset with
  | nil => simp [pushNested, extend, textAt?, length, plainText]
  | text other rest ih =>
    -- The rest is not empty, so that the text goes on behind it.
    have more : rest.pushNested own inner ≠ nil := by
      cases rest <;> simp [pushNested]
    rw [pushNested, extend.eq_3 _ _ _ more, length, textAt?]
    rw [ih, plainText, List.append_assoc, byteSize_append other, Nat.add_assoc]
  | span other within rest _ ih =>
    rw [pushNested, extend, length, textAt?]
    rw [ih, plainText, List.append_assoc, byteSize_append within.plainText, Nat.add_assoc]

/-- A new style leaves all texts as they are. -/
@[simp] theorem textAt?_restyle (markup : Markup) (position : Nat) (style : Style)
    (index offset : Nat) :
    (markup.restyle position style).textAt? index offset = markup.textAt? index offset := by
  -- The style reaches a span, which is where no text is found.
  fun_induction restyle markup position style generalizing index offset with
  | case1 => rfl
  | case2 => rfl
  | case3 own inner rest => cases index <;> rfl
  | case4 content rest position ih => cases index <;> simp [textAt?, ih]
  | case5 own inner rest position ih => cases index <;> simp [textAt?, ih]

/-- A span that gets a new style is found with that style. -/
theorem spanAt?_restyle_self (there : markup.spanAt? index offset = some (place, own, inner))
    (style : Style) :
    (markup.restyle index style).spanAt? index offset = some (place, style, inner) := by
  -- Position and style are carried along the same nodes.
  induction markup generalizing index offset with
  | nil => simp [spanAt?] at there
  | text content rest ih =>
    cases index with
    | zero => simp [spanAt?] at there
    | succ index => exact ih there
  | span other within rest _ ih =>
    cases index with
    -- The position is that of the span at the front, which takes the style.
    | zero => simp_all [spanAt?, restyle]
    | succ index => exact ih there

/-- Markup has grown out of itself. -/
theorem Extends.refl (markup : Markup) : markup.Extends markup :=
  ⟨Nat.le_refl _, id, fun there => ⟨[], by simpa using there⟩⟩

/-- Markup that has grown twice has grown. -/
theorem Extends.trans (first : before.Extends middle) (second : middle.Extends after) :
    -- Spans stay as they are, and texts get longer twice.
    before.Extends after where
  length := Nat.le_trans first.length second.length
  span there := second.span (first.span there)
  text there := by
    obtain ⟨some, kept⟩ := first.text there
    obtain ⟨more, longer⟩ := second.text kept
    exact ⟨some ++ more, by rw [longer, List.append_assoc]⟩

/-- Markup grows by a span. -/
theorem extends_pushNested (markup : Markup) (style : Style) (inner : Markup) :
    markup.Extends (markup.pushNested style inner) where
  length := by simp
  span there := spanAt?_pushNested there style inner
  text there := ⟨[], by simpa using textAt?_pushNested there style inner⟩

/-- Markup grows by a text. -/
theorem extends_pushText (markup : Markup) (content : Text) :
    markup.Extends (markup.pushText content) where
  length := length_le_pushText markup content
  span there := spanAt?_pushText there content
  text there := textAt?_pushText there content

/-- A span does not start in front of the markup that holds it. -/
theorem le_of_spanAt? {found : Nat × Style × Markup}
    (there : markup.spanAt? index offset = some found) : offset ≤ found.1 := by
  -- Each node in front moves the span further back.
  induction markup generalizing index offset with
  | nil => simp [spanAt?] at there
  | text content rest ih =>
    cases index with
    | zero => simp [spanAt?] at there
    | succ index => exact Nat.le_trans (Nat.le_add_right _ _) (ih there)
  | span other within rest _ ih =>
    cases index with
    | zero =>
      obtain rfl := by simpa [spanAt?] using there
      exact Nat.le_refl _
    | succ index => exact Nat.le_trans (Nat.le_add_right _ _) (ih there)

/-- An outermost span that holds a text shares no byte with another stretch of a style. -/
theorem eq_of_mem_spansOf (there : markup.spanAt? index offset = some (place, own, .text content .nil))
    {found : Nat × Text} (member : found ∈ markup.spansOf style offset)
    (starts : found.1 < place + byteSize content) (ends : place < found.1 + byteSize found.2) :
    own = style ∧ found = (place, content) := by
  induction markup generalizing index offset with
  | nil => simp [spanAt?] at there
  | text other rest ih =>
    cases index with
    | zero => simp [spanAt?] at there
    | succ index => exact ih there member
  | span known within rest _ ih =>
    rw [spansOf, List.mem_append, List.mem_append] at member
    cases index with
    | zero =>
      obtain ⟨rfl, rfl, rfl⟩ := by simpa [spanAt?] using there
      rcases member with (self | nested) | later
      · -- The stretch is the span itself.
        split at self
        · rename_i same
          exact ⟨same, by simpa [plainText] using self⟩
        · contradiction
      · simp [spansOf] at nested
      · -- Stretches behind the span start behind its text.
        obtain ⟨front, _, _, start⟩ := mem_spansOf later
        simp only [plainText, List.append_nil] at start
        omega
    | succ index =>
      -- The span stands behind the one in front.
      have beyond : rest.spanAt? index (offset + byteSize within.plainText) =
          some (place, own, .text content .nil) := there
      have behind : offset + byteSize within.plainText ≤ place := le_of_spanAt? beyond
      rcases member with (self | nested) | later
      · -- The stretch would be the whole span in front.
        split at self
        · obtain rfl := List.mem_singleton.mp self
          simp only at ends
          omega
        · contradiction
      · obtain ⟨front, back, cut, start⟩ := mem_spansOf nested
        have whole := congrArg byteSize cut
        simp only [byteSize_append] at whole
        omega
      · exact ih beyond later

end RegexLens.Markup
