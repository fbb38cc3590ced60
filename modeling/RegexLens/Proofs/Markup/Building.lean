import RegexLens.Markup.Basic

/-! What markup holds after each way of adding to it. -/

namespace RegexLens.Markup

/-- Markup to which text has been added holds a node. -/
theorem extend_ne_nil (markup : Markup) (content : Text) : markup.extend content ≠ nil := by
  -- Each way of extending ends in a text or in a span that is kept.
  fun_cases extend markup content <;> simp

/-- Adding text twice extends the same text node. -/
theorem extend_extend (markup : Markup) (first second : Text) :
    (markup.extend first).extend second = markup.extend (first ++ second) := by
  -- The text that the first step leaves at the end is the one that the second step extends.
  fun_induction extend markup first with
  | case1 => rfl
  -- A text node at the end takes both contents.
  | case2 last => simp [extend]
  | case3 other rest last ih =>
    -- Only the rest changes, and it still holds a node after the first step.
    rw [extend.eq_3 _ _ _ (extend_ne_nil rest first), ih, extend.eq_3 _ _ _ last]
  | case4 style inner rest ih => simpa [extend] using ih

/-- Adding two texts one after the other is adding them joined. -/
theorem pushText_pushText (markup : Markup) (first second : Text) :
    (markup.pushText first).pushText second = markup.pushText (first ++ second) := by
  -- Empty additions change nothing, so only two real ones have to be compared.
  unfold pushText
  by_cases nothing : first = []
  · simp [nothing]
  · by_cases more : second = []
    · simp [nothing, more]
    · simp [nothing, more, extend_extend]

/-- Added text stands at the end. -/
@[simp] theorem plainText_pushText (markup : Markup) (content : Text) :
    (markup.pushText content).plainText = markup.plainText ++ content := by
  unfold pushText
  split
  · simp_all
  · -- The text goes to the end of the last node or into a node of its own.
    fun_induction extend markup content <;> simp_all [plainText]

/-- An added span contributes the text inside it. -/
@[simp] theorem plainText_pushNested (markup : Markup) (style : Style) (inner : Markup) :
    (markup.pushNested style inner).plainText = markup.plainText ++ inner.plainText := by
  -- The span goes behind the last node.
  fun_induction pushNested markup style inner <;> simp_all [plainText]

/-- An added span contributes its text. -/
@[simp] theorem plainText_pushSpan (markup : Markup) (style : Style) (content : Text) :
    (markup.pushSpan style content).plainText = markup.plainText ++ content := by
  -- What a span holds in this case is a single text.
  simp [pushSpan, plainText]

end RegexLens.Markup
