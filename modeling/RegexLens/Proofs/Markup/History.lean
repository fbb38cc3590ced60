import RegexLens.Proofs.Markup.Growth

/-! Markup that was built step by step: its form, its text, and the spans in it, which stay. -/

namespace RegexLens

/-- How some markup is built, each step given with what is done behind it. -/
inductive History
  /-- Nothing more is done. -/
  | done
  /-- Text is added. -/
  | text (content : Text) (rest : History)
  /-- A span that holds one text is added. -/
  | span (style : Style) (content : Text) (rest : History)
  /-- A span is added that holds markup with a history of its own. -/
  | nested (style : Style) (inner : History) (rest : History)
  /-- The span at a position gets a new style. -/
  | restyle (index : Nat) (style : Style) (rest : History)
deriving DecidableEq, Repr

namespace History

/-- The markup that some markup becomes by a history. -/
def replay (history : History) (markup : Markup) : Markup :=
  match history with
  -- What was pushed first stands first, so each constructor acts before the rest is replayed.
  | done => markup
  | text content rest => rest.replay (markup.pushText content)
  | span style content rest => rest.replay (markup.pushSpan style content)
  | nested style inner rest => rest.replay (markup.pushNested style (inner.replay .nil))
  | restyle index style rest => rest.replay (markup.restyle index style)

/-- The markup that is built from nothing. -/
def build (history : History) : Markup :=
  history.replay .nil

/-- One history and then another one. -/
def append (first second : History) : History :=
  match first with
  | done => second
  | text content rest => text content (rest.append second)
  | span style content rest => span style content (rest.append second)
  | nested style inner rest => nested style inner (rest.append second)
  | restyle index style rest => restyle index style (rest.append second)

/-- All texts that are added, in order and at every depth. -/
def texts : History → List Text
  | done => []
  | text content rest => content :: rest.texts
  | span _ content rest => content :: rest.texts
  | nested _ inner rest => inner.texts ++ rest.texts
  | restyle _ _ rest => rest.texts

/-- The last style that is given to the position on the outermost level, if any is. -/
def lastStyle? (index : Nat) : History → Option Style
  | done => none
  | text _ rest => rest.lastStyle? index
  | span _ _ rest => rest.lastStyle? index
  | nested _ _ rest => rest.lastStyle? index
  | restyle position style rest =>
    (rest.lastStyle? index).or (if position = index then some style else none)

end History

namespace Markup

/-- Whether the first node is a text. -/
def startsWithText : Markup → Bool
  | text _ _ => true
  | _ => false

/-- No two texts stand side by side on any level, and a text is empty only as all that a span
holds. -/
def Canonical : Markup → Prop
  | nil => True
  | text content rest => content ≠ [] ∧ rest.startsWithText = false ∧ rest.Canonical
  | span _ inner rest => (inner = text [] nil ∨ inner.Canonical) ∧ rest.Canonical

/-- What a new style for a position does: it reaches the span there, or it does nothing. -/
structure RestyledAt (before after : Markup) (index : Nat) (style : Style) : Prop where
  /-- No node is added, and none is lost. -/
  length : after.length = before.length
  /-- A span at the position has the new style, and it is where it was and holds what it held. -/
  span : ∀ {place own inner}, before.spanAt? index 0 = some (place, own, inner) →
    after.spanAt? index 0 = some (place, style, inner)
  /-- Every other span is as it was. -/
  others : ∀ {other}, other ≠ index → after.spanAt? other 0 = before.spanAt? other 0
  /-- Every text is as it was. -/
  texts : ∀ other, after.textAt? other 0 = before.textAt? other 0
  /-- At the position of a text nothing happens. -/
  text : ∀ {found}, before.textAt? index 0 = some found → after = before
  /-- At a position behind the last node nothing happens. -/
  beyond : before.length ≤ index → after = before

variable {markup inner : Markup} {index offset : Nat}

/-- A span behind all nodes does not become the first one in front of a text. -/
theorem startsWithText_pushNested (markup : Markup) (style : Style) (inner : Markup) :
    (markup.pushNested style inner).startsWithText = markup.startsWithText := by
  cases markup <;> rfl

/-- Text behind some nodes leaves the first one a text or a span. -/
theorem startsWithText_extend (some : markup ≠ nil) (content : Text) :
    (markup.extend content).startsWithText = markup.startsWithText := by
  fun_cases extend markup content
  · contradiction
  all_goals rfl

/-- A new style does not turn spans into texts. -/
theorem startsWithText_restyle (markup : Markup) (index : Nat) (style : Style) :
    (markup.restyle index style).startsWithText = markup.startsWithText := by
  fun_cases restyle markup index style <;> rfl

/-- A span behind markup in canonical form keeps the form. -/
theorem Canonical.pushNested (canonical : markup.Canonical) (style : Style)
    (held : inner = .text [] .nil ∨ inner.Canonical) :
    (markup.pushNested style inner).Canonical := by
  -- The induction walks to the end of the markup, which is where the span is pushed.
  induction markup with
  | nil => exact ⟨held, trivial⟩
  -- The span stands behind the text, so the text still meets no other text.
  | text content rest ih =>
    obtain ⟨some, apart, further⟩ := canonical
    exact ⟨some, by rw [startsWithText_pushNested, apart], ih further⟩
  | span other within rest _ ih => exact ⟨canonical.1, ih canonical.2⟩

/-- Text behind markup in canonical form keeps the form. -/
theorem Canonical.pushText (canonical : markup.Canonical) (content : Text) :
    (markup.pushText content).Canonical := by
  unfold Markup.pushText
  split
  · exact canonical
  · rename_i some
    fun_induction extend markup content with
    | case1 => exact ⟨some, rfl, trivial⟩
    -- A text at the end takes the new text in, so that no second one stands behind it.
    | case2 last => exact ⟨List.append_ne_nil_of_right_ne_nil _ some, rfl, trivial⟩
    -- A text in front meets no text behind it, and at the end none is put there.
    | case3 other rest last ih =>
      obtain ⟨solid, apart, further⟩ := canonical
      exact ⟨solid, by rw [startsWithText_extend last, apart], ih further⟩
    | case4 style inner rest ih => exact ⟨canonical.1, ih canonical.2⟩

/-- A span with one text behind markup in canonical form keeps the form. -/
theorem Canonical.pushSpan (canonical : markup.Canonical) (style : Style) (content : Text) :
    (markup.pushSpan style content).Canonical := by
  apply canonical.pushNested
  by_cases empty : content = []
  · exact .inl (by rw [empty])
  · exact .inr ⟨empty, rfl, trivial⟩

/-- A new style keeps the canonical form. -/
theorem Canonical.restyle (canonical : markup.Canonical) (index : Nat) (style : Style) :
    (markup.restyle index style).Canonical := by
  -- A new style reaches one span, and its contents are as they were.
  fun_induction Markup.restyle markup index style with
  | case1 => trivial
  | case2 | case3 => exact canonical
  -- The markup behind the text starts with a span before and after.
  | case4 content rest index ih =>
    obtain ⟨some, apart, further⟩ := canonical
    exact ⟨some, by rw [startsWithText_restyle, apart], ih further⟩
  | case5 own inner rest index ih => exact ⟨canonical.1, ih canonical.2⟩

/-- A new style leaves the number of nodes as it is. -/
theorem length_restyle (markup : Markup) (index : Nat) (style : Style) :
    (markup.restyle index style).length = markup.length := by
  fun_induction restyle markup index style <;> simp_all [length]

/-- Where no span stands, a new style does nothing. -/
theorem restyle_eq_self (missing : markup.spanAt? index offset = none) (style : Style) :
    markup.restyle index style = markup := by
  -- The style is carried past every node in front of the position, to where no span stands.
  fun_induction restyle markup index style generalizing offset with
  | case1 | case2 => rfl
  | case3 own inner rest => simp [spanAt?] at missing
  | case4 content rest index ih => rw [ih missing]
  | case5 own inner rest index ih => rw [ih missing]

/-- No span stands where a text does. -/
theorem spanAt?_of_textAt? {found : Nat × Text} (there : markup.textAt? index offset = some found) :
    markup.spanAt? index offset = none := by
  -- Both look the position up along the same nodes.
  induction markup generalizing index offset with
  | nil => simp [textAt?] at there
  | text content rest ih =>
    cases index with
    | zero => rfl
    | succ index => exact ih there
  | span style inner rest _ ih =>
    cases index with
    | zero => simp [textAt?] at there
    | succ index => exact ih there

/-- A new style for a position reaches the span there and nothing else. -/
theorem restyledAt_restyle (markup : Markup) (index : Nat) (style : Style) :
    markup.RestyledAt (markup.restyle index style) index style where
  length := length_restyle markup index style
  span there := spanAt?_restyle_self there style
  others distinct := spanAt?_restyle distinct markup 0 style
  texts other := textAt?_restyle markup index style other 0
  text there := restyle_eq_self (spanAt?_of_textAt? there) style
  -- Behind the last node there is no span to be reached.
  beyond within := by
    have missing : markup.spanAt? index 0 = none := by
      rw [Option.eq_none_iff_forall_ne_some]
      intro found there
      exact absurd (spanAt?_lt_length there) (Nat.not_lt_of_le within)
    exact restyle_eq_self missing style

end Markup

namespace History

variable {markup inner : Markup} {index place : Nat} {style : Style}

/-- One history after another is replayed in this order. -/
theorem replay_append (first second : History) (markup : Markup) :
    (first.append second).replay markup = second.replay (first.replay markup) := by
  -- The first history is taken apart, since the joined one is defined by it.
  induction first generalizing markup with
  | done => rfl
  | text content rest ih => exact ih _
  | span own content rest ih => exact ih _
  | nested own inner rest _ ih => exact ih _
  | restyle position own rest ih => exact ih _

/-- What is built by one history after another is what the second one makes of the first. -/
theorem build_append (first second : History) :
    (first.append second).build = second.replay first.build :=
  replay_append first second .nil

/-- Every history keeps the canonical form. -/
theorem canonical_replay (history : History) (canonical : markup.Canonical) :
    (history.replay markup).Canonical := by
  -- A nested history starts from nothing, which is in canonical form.
  induction history generalizing markup with
  | done => exact canonical
  | text content rest ih => exact ih (canonical.pushText content)
  | span own content rest ih => exact ih (canonical.pushSpan own content)
  | nested own inner rest inside ih =>
    exact ih (canonical.pushNested own (.inr (inside trivial)))
  | restyle position own rest ih => exact ih (canonical.restyle position own)

/-- A history adds its texts, one behind the other. -/
theorem plainText_replay (history : History) (markup : Markup) :
    (history.replay markup).plainText = markup.plainText ++ history.texts.flatten := by
  -- Only a text and a span add to what was written, each behind all that is there.
  induction history generalizing markup with
  | done => simp [replay, texts]
  | text content rest ih => simp [replay, texts, ih]
  | span own content rest ih => simp [replay, texts, ih]
  | nested own inner rest inside ih => simp [replay, texts, ih, inside, Markup.plainText]
  | restyle position own rest ih => simp [replay, texts, ih]

/-- A span keeps its position, its place and its contents, and its style is the last one given. -/
theorem spanAt?_replay (history : History)
    (there : markup.spanAt? index 0 = some (place, style, inner)) :
    (history.replay markup).spanAt? index 0 =
      some (place, (history.lastStyle? index).getD style, inner) := by
  -- The span is found again after each step, with the style to fall back on kept up to date.
  induction history generalizing markup style with
  | done => exact there
  | text content rest ih => exact ih (Markup.spanAt?_pushText there content)
  | span own content rest ih => exact ih (Markup.spanAt?_pushNested there own _)
  | nested own inner rest _ ih => exact ih (Markup.spanAt?_pushNested there own _)
  | restyle position own rest ih =>
    rw [replay, lastStyle?]
    by_cases same : position = index
    · -- From here on the style to fall back on is the one just given.
      subst same
      rw [ih (Markup.spanAt?_restyle_self there own), if_pos rfl]
      cases rest.lastStyle? position <;> rfl
    · -- A new style somewhere else leaves this span as it was.
      have kept : (markup.restyle position own).spanAt? index 0 = some (place, style, inner) := by
        rw [Markup.spanAt?_restyle (Ne.symm same), there]
      rw [ih kept, if_neg same, Option.or_none]

/-- A span that is added stands at the number of nodes there were, for every later history. -/
theorem spanAt?_replay_pushNested (history : History) (markup : Markup) (style : Style)
    (inner : Markup) :
    (history.replay (markup.pushNested style inner)).spanAt? markup.length 0 =
      some (byteSize markup.plainText, (history.lastStyle? markup.length).getD style, inner) := by
  -- The span that is added is the one behind all the nodes there were.
  have added := markup.spanAt?_length style inner 0
  rw [Nat.zero_add] at added
  exact history.spanAt?_replay added

/-- Markup that is built from nothing is in canonical form, and its text consists of the texts that
were added. A span that was added stands at its position whatever is done behind it, with what it
held and with the last style that was given to the position, and a new style has no other effect. -/
theorem build_canonical_stable (history : History) :
    history.build.Canonical ∧
      history.build.plainText = history.texts.flatten ∧
      (∀ style content later, (history.append (.span style content later)).build.spanAt?
          history.build.length 0 =
        some (byteSize history.build.plainText,
          (later.lastStyle? history.build.length).getD style, .text content .nil)) ∧
      (∀ style inner later, (history.append (.nested style inner later)).build.spanAt?
          history.build.length 0 =
        some (byteSize history.build.plainText,
          (later.lastStyle? history.build.length).getD style, inner.build)) ∧
      ∀ index style, history.build.RestyledAt
        (history.append (.restyle index style .done)).build index style := by
  refine ⟨history.canonical_replay trivial, history.plainText_replay .nil, ?_, ?_, ?_⟩
  · -- Further history is replayed on markup in which the span has its place already.
    intro style content later
    rw [build_append]
    exact later.spanAt?_replay_pushNested history.build style _
  · intro style inner later
    rw [build_append]
    exact later.spanAt?_replay_pushNested history.build style _
  · intro index style
    rw [build_append]
    exact history.build.restyledAt_restyle index style

/-- A text between two spans grows without moving them, and a new style reaches the second one. -/
example : (span .special ['('] (text ['a'] (text ['b'] (span .range [] (text [] (text ['c']
    (restyle 1 .error (restyle 2 .error (restyle 4 .error done))))))))).build =
      .span .special (.text ['('] .nil) (.text ['a', 'b'] (.span .error (.text [] .nil)
        (.text ['c'] .nil))) := by
  decide

end History

end RegexLens
