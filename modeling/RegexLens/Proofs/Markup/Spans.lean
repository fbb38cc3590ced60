import RegexLens.Proofs.Markup.Building

/-! The spans of one style, with the byte offsets and the texts at which a reader finds them. -/

namespace RegexLens.Markup

/-- The spans of a style at any depth in document order, each with its byte offset and its text. -/
def spansOf (style : Style) (offset : Nat) : Markup → List (Nat × Text)
  | nil => []
  | text content rest => rest.spansOf style (offset + byteSize content)
  | span own inner rest =>
    -- A span starts where its contents start, and it comes before the spans inside it.
    (if own = style then [(offset, inner.plainText)] else []) ++ inner.spansOf style offset ++
      rest.spansOf style (offset + byteSize inner.plainText)

/-- Every span of a style holds some text and no other span of that style. -/
def Separate (style : Style) : Markup → Prop
  | nil => True
  | text _ rest => rest.Separate style
  | span own inner rest =>
    (own = style → inner.plainText ≠ [] ∧ inner.hasStyle style = false) ∧
      inner.Separate style ∧ rest.Separate style

/-- The outermost span at a position, with its byte offset. -/
def spanAt? (index offset : Nat) : Markup → Option (Nat × Style × Markup)
  | nil => none
  | text content rest =>
    -- Texts are counted among the nodes but are no spans.
    match index with
    | 0 => none
    | index + 1 => rest.spanAt? index (offset + byteSize content)
  | span own inner rest =>
    match index with
    | 0 => some (offset, own, inner)
    | index + 1 => rest.spanAt? index (offset + byteSize inner.plainText)

variable {style own : Style} {index offset place : Nat} {inner markup : Markup}

/-- A style occurs in markup when it has spans there. -/
theorem spansOf_eq_nil_iff (style : Style) (offset : Nat) (markup : Markup) :
    markup.spansOf style offset = [] ↔ markup.hasStyle style = false := by
  -- The offset moves along with the nodes, so the hypothesis has to hold at each of them.
  induction markup generalizing offset with
  | nil => simp [spansOf, hasStyle]
  | text content rest ih => simpa [spansOf, hasStyle] using ih _
  | span own inner rest inside behind =>
    -- A span is found when it has the style, or when something inside or behind it has.
    simp only [spansOf, hasStyle, List.append_eq_nil_iff, Bool.or_eq_false_iff, inside, behind]
    by_cases same : own = style
    · simp [same]
    · simp [same]

/-- A span added at the end is found behind those that are there. -/
theorem spansOf_pushNested (style : Style) (offset : Nat) (markup : Markup) (own : Style)
    (inner : Markup) :
    (markup.pushNested own inner).spansOf style offset =
      markup.spansOf style offset ++
        ((if own = style then [(offset + byteSize markup.plainText, inner.plainText)] else []) ++
          inner.spansOf style (offset + byteSize markup.plainText)) := by
  -- The new span starts where the text of the nodes before it ends.
  induction markup generalizing offset with
  | nil => simp [pushNested, spansOf, plainText]
  | text content rest ih =>
    simp only [pushNested, spansOf, ih, plainText, byteSize_append, Nat.add_assoc]
  | span other within rest _ ih =>
    simp only [pushNested, spansOf, ih, plainText, byteSize_append, Nat.add_assoc,
      List.append_assoc]

/-- A text in a style of its own is found with its place when the style is the one in question. -/
theorem spansOf_pushSpan (style : Style) (offset : Nat) (markup : Markup) (own : Style)
    (content : Text) :
    (markup.pushSpan own content).spansOf style offset =
      markup.spansOf style offset ++
        if own = style then [(offset + byteSize markup.plainText, content)] else [] := by
  -- A plain text has no span inside.
  simp [pushSpan, spansOf_pushNested, spansOf, plainText]

/-- Text without a style adds no span. -/
@[simp] theorem spansOf_pushText (style : Style) (offset : Nat) (markup : Markup)
    (content : Text) :
    (markup.pushText content).spansOf style offset = markup.spansOf style offset := by
  -- Text joins the last text or becomes a node of its own, and neither is a span.
  unfold pushText
  split
  · rfl
  · fun_induction extend markup content generalizing offset with
    | case1 => rfl
    | case2 last => rfl
    | case3 other rest content ih => simp_all [spansOf]
    | case4 own inner rest ih => simp_all [spansOf]

/-- The text of a span stands in the markup at the offset of the span. -/
theorem mem_spansOf {entry : Nat × Text} (found : entry ∈ markup.spansOf style offset) :
    ∃ before after, markup.plainText = before ++ entry.2 ++ after ∧
      entry.1 = offset + byteSize before := by
  -- An entry comes from one node, whose text splits around it.
  induction markup generalizing offset with
  | nil => simp [spansOf] at found
  | text content rest ih =>
    -- The text of this node stands in front of the entry.
    obtain ⟨before, after, cut, place⟩ := ih found
    refine ⟨content ++ before, after, by simp [plainText, cut], ?_⟩
    rw [place, byteSize_append, Nat.add_assoc]
  | span own inner rest inside behind =>
    rw [spansOf, List.mem_append, List.mem_append] at found
    rcases found with (own | nested) | later
    · -- The span itself starts where its contents do.
      split at own
      · obtain rfl := List.mem_singleton.mp own
        exact ⟨[], rest.plainText, by simp [plainText], by simp⟩
      · contradiction
    · -- Inside the span the offset is the same, and what follows the span is also behind the entry.
      obtain ⟨before, after, cut, place⟩ := inside nested
      exact ⟨before, after ++ rest.plainText, by simp [plainText, cut], place⟩
    · -- Behind the span the text of the span stands in front.
      obtain ⟨before, after, cut, place⟩ := behind later
      refine ⟨inner.plainText ++ before, after, by simp [plainText, cut], ?_⟩
      rw [place, byteSize_append, Nat.add_assoc]

/-- A stretch of text that ends before another one starts. -/
def Precedes (first second : Nat × Text) : Prop :=
  first.1 + byteSize first.2 ≤ second.1

/-- Spans that do not nest never overlap, and they are found in the order of their offsets. -/
theorem Separate.pairwise (separate : markup.Separate style) (offset : Nat) :
    (markup.spansOf style offset).Pairwise Precedes := by
  -- A span comes before what it holds, and that comes before what follows the span.
  induction markup generalizing offset with
  | nil => exact .nil
  | text content rest ih => exact ih separate _
  | span own inner rest inside behind =>
    obtain ⟨alone, within, after⟩ := separate
    -- The list has three parts, so three parts are in order and two pairs of parts are.
    rw [spansOf, List.pairwise_append, List.pairwise_append]
    -- At most one entry is the span itself.
    refine ⟨⟨?_, inside within offset, ?_⟩, behind after _, ?_⟩
    · split
      · exact List.pairwise_singleton _ _
      · exact .nil
    · intro first isOwn second nested
      -- A span of the style has no others inside it.
      split at isOwn
      · rename_i same
        rw [(spansOf_eq_nil_iff style offset inner).mpr (alone same).2] at nested
        contradiction
      · contradiction
    · -- What starts behind the span starts behind the text of everything inside it.
      intro first front second later
      obtain ⟨behindInner, _, _, secondPlace⟩ := mem_spansOf later
      rcases List.mem_append.mp front with isOwn | nested
      · split at isOwn
        · -- The span itself ends where the rest starts.
          obtain rfl := List.mem_singleton.mp isOwn
          simp only [Precedes]
          omega
        · contradiction
      · obtain ⟨before, rest, cut, firstPlace⟩ := mem_spansOf nested
        -- A span inside ends no later than the text that holds it.
        have size := congrArg byteSize cut
        simp only [byteSize_append] at size
        simp only [Precedes]
        omega

/-- Spans that do not nest hold some text. -/
theorem Separate.nonempty (separate : markup.Separate style) {entry : Nat × Text}
    (found : entry ∈ markup.spansOf style offset) : entry.2 ≠ [] := by
  induction markup generalizing offset with
  | nil => simp [spansOf] at found
  | text content rest ih => exact ih separate found
  | span own inner rest inside behind =>
    obtain ⟨alone, within, after⟩ := separate
    rw [spansOf, List.mem_append, List.mem_append] at found
    -- The entry is the span itself, or one inside it, or one behind it.
    rcases found with (own | nested) | later
    · split at own
      · rename_i same
        obtain rfl := List.mem_singleton.mp own
        exact (alone same).1
      · contradiction
    · exact inside within nested
    · exact behind after later

/-- Adding a span of another style keeps spans of a style apart. -/
theorem Separate.pushNested (separate : markup.Separate style)
    (alone : own = style → inner.plainText ≠ [] ∧ inner.hasStyle style = false)
    (within : inner.Separate style) : (markup.pushNested own inner).Separate style := by
  -- Only the end of the markup changes, and the new span is fine on its own.
  induction markup with
  | nil => exact ⟨alone, within, trivial⟩
  | text content rest ih => exact ih separate
  | span other inside rest _ ih => exact ⟨separate.1, separate.2.1, ih separate.2.2⟩

/-- Adding a text in a style keeps spans of a style apart. -/
theorem Separate.pushSpan (separate : markup.Separate style) {content : Text}
    (solid : own = style → content ≠ []) : (markup.pushSpan own content).Separate style := by
  refine separate.pushNested ?_ trivial
  -- A text holds no span, so it has to be checked only that it is there.
  intro same
  exact ⟨by simpa [plainText] using solid same, rfl⟩

/-- Adding text without a style keeps spans of a style apart. -/
theorem Separate.pushText (separate : markup.Separate style) (content : Text) :
    (markup.pushText content).Separate style := by
  -- Without a style the text adds no node that has to be looked at.
  unfold Markup.pushText
  split
  · exact separate
  · fun_induction extend markup content with
    | case1 => trivial
    | case2 last => trivial
    | case3 other rest content ih => exact ih separate
    | case4 own inner rest ih => exact ⟨separate.1, separate.2.1, ih separate.2.2⟩

/-- The nodes that are there keep their places when a span is added. -/
theorem spanAt?_pushNested {found : Nat × Style × Markup}
    (there : markup.spanAt? index offset = some found) (own : Style) (inner : Markup) :
    (markup.pushNested own inner).spanAt? index offset = some found := by
  -- A position that is taken stays taken, because the new span goes behind all nodes.
  induction markup generalizing index offset with
  | nil => simp [spanAt?] at there
  | text content rest ih =>
    cases index with
    | zero => simp [spanAt?] at there
    | succ index => exact ih there
  | span other within rest _ ih =>
    cases index with
    | zero => exact there
    | succ index => exact ih there

/-- The nodes that are there keep their places when text is added. -/
theorem spanAt?_pushText {found : Nat × Style × Markup}
    (there : markup.spanAt? index offset = some found) (content : Text) :
    (markup.pushText content).spanAt? index offset = some found := by
  -- Text lengthens the last text or stands behind it, and a text is no span.
  unfold pushText
  split
  · exact there
  · fun_induction extend markup content generalizing index offset with
    | case1 => simp [spanAt?] at there
    | case2 last =>
      -- The last text is no span, and nothing comes behind it.
      cases index with
      | zero => simp [spanAt?] at there
      | succ index => simp [spanAt?] at there
    | case3 other rest content ih =>
      cases index with
      | zero => simp [spanAt?] at there
      | succ index => simp_all [spanAt?]
    | case4 own inner rest ih =>
      cases index with
      | zero => exact there
      | succ index => simp_all [spanAt?]

/-- An added span is found at the end. -/
theorem spanAt?_length (markup : Markup) (own : Style) (inner : Markup) (offset : Nat) :
    (markup.pushNested own inner).spanAt? markup.length offset =
      some (offset + byteSize markup.plainText, own, inner) := by
  -- Each node in front moves the offset by its text and the position by one.
  induction markup generalizing offset with
  | nil => simp [pushNested, spanAt?, length, plainText]
  | text content rest ih =>
    simp only [pushNested, spanAt?, length, ih, plainText, byteSize_append, Nat.add_assoc]
  | span other within rest _ ih =>
    simp only [pushNested, spanAt?, length, ih, plainText, byteSize_append, Nat.add_assoc]

/-- A node is found only at a position that the markup has. -/
theorem spanAt?_lt_length {found : Nat × Style × Markup}
    (there : markup.spanAt? index offset = some found) : index < markup.length := by
  -- Position and markup are walked down together.
  induction markup generalizing index offset with
  | nil => simp [spanAt?] at there
  | text content rest ih =>
    cases index with
    | zero => simp [length]
    | succ index => exact Nat.succ_lt_succ (ih there)
  | span other within rest _ ih =>
    cases index with
    | zero => simp [length]
    | succ index => exact Nat.succ_lt_succ (ih there)

/-- A new style changes no text. -/
@[simp] theorem plainText_restyle (markup : Markup) (index : Nat) (style : Style) :
    (markup.restyle index style).plainText = markup.plainText := by
  -- Only the style of one node changes.
  fun_induction restyle markup index style <;> simp_all [plainText]

/-- A new style for one span leaves the others as they are. -/
theorem spanAt?_restyle {other : Nat} (distinct : other ≠ index) (markup : Markup) (offset : Nat)
    (style : Style) :
    (markup.restyle index style).spanAt? other offset = markup.spanAt? other offset := by
  -- The restyled span is met at the same step in both, and it is not the one looked for.
  fun_induction restyle markup index style generalizing other offset with
  | case1 => rfl
  | case2 => rfl
  | case3 own inner rest =>
    -- At the span itself the positions would agree.
    cases other with
    | zero => contradiction
    | succ other => rfl
  | case4 content rest index ih =>
    cases other with
    | zero => rfl
    | succ other => exact ih (by omega) _
  | case5 own inner rest index ih =>
    cases other with
    | zero => rfl
    | succ other => exact ih (by omega) _

/-- A span that takes on a style is found in addition to those that had it. -/
theorem spansOf_restyle (there : markup.spanAt? index offset = some (place, own, inner))
    (other : own ≠ style) :
    ((markup.restyle index style).spansOf style offset).Perm
      ((place, inner.plainText) :: markup.spansOf style offset) := by
  -- The position leads to the span, and everything before it is the same on both sides.
  induction markup generalizing index offset with
  | nil => simp [spanAt?] at there
  | text content rest ih =>
    cases index with
    | zero => simp [spanAt?] at there
    | succ index => exact ih there
  | span known within rest _ ih =>
    cases index with
    | zero =>
      -- The span was not counted before and is now the first entry.
      obtain ⟨rfl, rfl, rfl⟩ := by simpa [spanAt?] using there
      simp [restyle, spansOf, other]
    | succ index =>
      -- The new entry moves in front of what stands before it.
      simp only [restyle, spansOf]
      exact ((ih there).append_left _).trans List.perm_middle

/-- A span that takes on a style stays apart when it holds a text and nothing of that style. -/
theorem Separate.restyle (separate : markup.Separate style)
    (there : markup.spanAt? index offset = some (place, own, inner))
    (alone : inner.plainText ≠ [] ∧ inner.hasStyle style = false) :
    (markup.restyle index style).Separate style := by
  -- Only the span at the position gets a new condition to meet.
  induction markup generalizing index offset with
  | nil => simp [spanAt?] at there
  | text content rest ih =>
    cases index with
    | zero => simp [spanAt?] at there
    | succ index => exact ih separate there
  | span known within rest _ ih =>
    cases index with
    | zero =>
      -- This is the span itself, for which the condition is assumed.
      obtain ⟨rfl, rfl, rfl⟩ := by simpa [spanAt?] using there
      exact ⟨fun _ => alone, separate.2.1, separate.2.2⟩
    | succ index => exact ⟨separate.1, separate.2.1, ih separate.2.2 there⟩

end RegexLens.Markup
