import RegexLens.Markup.Html
import RegexLens.Proofs.Markup.TagDocument
import RegexLens.Proofs.Numeral

/-! Markup text is read back by its tags, which no text inside of it can imitate. -/

namespace RegexLens

/-- What replaces a character is never one of markup. -/
theorem inert_escapeChar (symbol : Char) : Inert (escapeChar symbol) := by
  unfold escapeChar
  split
  · exact ⟨by decide, by decide, by decide⟩
  · -- A character that is kept has failed all three tests.
    simp_all [Inert]

/-- An escaped text holds no character of markup. -/
theorem inert_of_mem_escape {content : Text} {symbol : Char} (member : symbol ∈ escape content) :
    Inert symbol := by
  obtain ⟨original, -, rfl⟩ := List.mem_map.mp member
  exact inert_escapeChar original

/-- Escaping goes character by character. -/
theorem escape_append (first second : Text) :
    escape (first ++ second) = escape first ++ escape second :=
  List.map_append

namespace TagPiece

/-- A tag in the piece stands for a style that the markup has. -/
def EmittedFor (markup : Markup) : TagPiece → Prop
  | .character _ => True
  | .opening tag => ∃ style, markup.hasStyle style = true ∧ tag = style.tag
  | .closing element => ∃ style, markup.hasStyle style = true ∧ element = style.tag.element

/-- A tag that stands for a style of one markup stands for it in any that has the same styles. -/
theorem EmittedFor.mono {first second : Markup} {piece : TagPiece}
    (emitted : piece.EmittedFor first)
    (more : ∀ style, first.hasStyle style = true → second.hasStyle style = true) :
    piece.EmittedFor second := by
  -- A tag names its style, and any style of the first markup is one of the second.
  cases piece with
  | character content => trivial
  | opening tag =>
    obtain ⟨style, has, same⟩ := emitted
    exact ⟨style, more style has, same⟩
  | closing element =>
    obtain ⟨style, has, same⟩ := emitted
    exact ⟨style, more style has, same⟩

end TagPiece

/-- The attributes of a tag, which has none without a label. -/
def Tag.attributes (tag : Tag) : Text :=
  if tag.label = [] then [] else " class=\"".toList ++ tag.label ++ ['"']

/-- An opening tag holds the letter of its element and the attributes. -/
theorem Tag.opening_eq (tag : Tag) :
    tag.opening = '<' :: (tag.element :: tag.attributes) ++ ['>'] :=
  rfl

namespace Style

/-- A label consists of letters and digits. -/
theorem isAlphanum_of_mem_label {style : Style} {symbol : Char}
    (member : symbol ∈ style.tag.label) : symbol.isAlphanum = true := by
  -- A style has a label of its own letters, or none at all.
  cases style with
  | error =>
    have letter : symbol = 'e' ∨ symbol = 'r' := by simpa [Style.tag] using member
    rcases letter with rfl | rfl
    · rfl
    · rfl
  | metaclass =>
    have letter : symbol = 'm' ∨ symbol = 'c' := by simpa [Style.tag] using member
    rcases letter with rfl | rfl
    · rfl
    · rfl
  | group level =>
    -- The letter of a group stands in front of the digits of its level.
    rcases List.mem_cons.mp member with rfl | later
    · rfl
    · simp [Char.isAlphanum, isDigit_of_mem_decimalDigits later]
  -- The other styles have no label.
  | special => contradiction
  | characterClass => contradiction
  | range => contradiction
  | matched => contradiction
  | matchedAlt => contradiction

/-- What stands in a label is neither of markup nor one of the quotes around the label. -/
theorem label_safe (style : Style) {symbol : Char} (member : symbol ∈ style.tag.label) :
    Inert symbol ∧ symbol ≠ '"' := by
  have named := isAlphanum_of_mem_label member
  -- None of the four characters is a letter or a digit.
  refine ⟨⟨?_, ?_, ?_⟩, ?_⟩ <;> rintro rfl <;> contradiction

/-- The letter of an element is neither of markup nor the slash of a closing tag. -/
theorem element_safe (style : Style) : Inert style.tag.element ∧ style.tag.element ≠ '/' := by
  cases style <;> simp [Style.tag, Inert]

/-- Nothing inside of an opening tag ends it. -/
theorem inert_of_mem_opening (style : Style) {symbol : Char}
    (member : symbol ∈ style.tag.element :: style.tag.attributes) : Inert symbol := by
  rcases List.mem_cons.mp member with rfl | named
  · exact style.element_safe.1
  · -- The attributes are missing, or they are a name with a label in quotes.
    unfold Tag.attributes at named
    split at named
    · contradiction
    · -- Around the label stand the name of the attribute and two quotes.
      have around : ∀ symbol ∈ " class=\"".toList ++ ['"'], Inert symbol := by
        simp [Inert]
      simp only [List.mem_append] at named around
      rcases named with (name | label) | quote
      · exact around symbol (.inl name)
      · exact (style.label_safe label).1
      · exact around symbol (.inr quote)

/-- Nothing inside of a closing tag ends it. -/
theorem inert_of_mem_closing (style : Style) {symbol : Char}
    (member : symbol ∈ ['/', style.tag.element]) : Inert symbol := by
  simp only [List.mem_cons, List.not_mem_nil, or_false] at member
  -- A slash and the letter of the element.
  rcases member with rfl | rfl
  · exact ⟨by decide, by decide, by decide⟩
  · exact style.element_safe.1

/-- The attributes of a style's tag give its label. -/
theorem label?_attributes (style : Style) :
    TagPiece.label? style.tag.attributes = some style.tag.label := by
  by_cases plain : style.tag.label = []
  · simp [TagPiece.label?, Tag.attributes, plain]
  · -- Without the quotes around it, what stands behind the name of the attribute is the label.
    have unquoted : ((" class=\"".toList ++ style.tag.label ++ ['"']).drop 8).dropLast =
        style.tag.label := by
      simp
    have noQuote : '"' ∉ style.tag.label := by
      intro quote
      exact (style.label_safe quote).2 rfl
    simp only [TagPiece.label?, Tag.attributes, if_neg plain, unquoted]
    rw [if_neg (by simp), if_pos ⟨plain, noQuote, trivial⟩]

/-- The opening tag of a style is read as that tag. -/
theorem ofBody_opening (style : Style) :
    TagPiece.ofBody (style.tag.element :: style.tag.attributes) = some (.opening style.tag) := by
  simp [TagPiece.ofBody, style.element_safe.2, label?_attributes]

/-- The closing tag of a style is read as one of its element. -/
theorem ofBody_closing (style : Style) :
    TagPiece.ofBody ['/', style.tag.element] = some (.closing style.tag.element) := by
  simp [TagPiece.ofBody]

end Style

namespace Markup

/-- The document that markup stands for, in which a tag replaces each style. -/
def tagged : Markup → Tagged
  | nil => .nil
  | text content rest => (Tagged.ofText (escape content)).append rest.tagged
  | span style inner rest => .element style.tag inner.tagged rest.tagged

/-- The pieces of which the written form of markup consists. -/
def pieces : Markup → List TagPiece
  | nil => []
  | text content rest => (escape content).map .character ++ rest.pieces
  | span style inner rest =>
    .opening style.tag :: inner.pieces ++ .closing style.tag.element :: rest.pieces

/-- The written form of markup consists of its pieces. -/
theorem flatMap_written_pieces (markup : Markup) :
    markup.pieces.flatMap TagPiece.written = markup.html := by
  induction markup with
  | nil => rfl
  | text content rest ih =>
    -- A character is written as itself.
    simp [pieces, html, ih, List.flatMap_map, TagPiece.written]
  | span style inner rest inside behind =>
    simp [pieces, html, inside, behind, TagPiece.written, Tag.closing]

/-- No piece of written markup holds a delimiter in another place than at the ends of a tag. -/
theorem safe_of_mem_pieces {markup : Markup} {piece : TagPiece} (member : piece ∈ markup.pieces) :
    piece.Safe := by
  -- The pieces of a span are its two tags around those of what it holds.
  induction markup with
  | nil => contradiction
  | text content rest ih =>
    -- A character is escaped before it is written.
    rcases List.mem_append.mp member with own | later
    · obtain ⟨symbol, found, rfl⟩ := List.mem_map.mp own
      exact inert_of_mem_escape found
    · exact ih later
  | span style inner rest inside behind =>
    simp only [pieces, List.cons_append, List.mem_cons, List.mem_append] at member
    rcases member with rfl | within | rfl | later
    · exact ⟨_, style.tag.opening_eq, fun symbol => style.inert_of_mem_opening⟩
    · exact inside within
    · exact ⟨['/', style.tag.element], rfl, fun symbol => style.inert_of_mem_closing⟩
    · exact behind later

/-- Tags come from styles of the markup only. -/
theorem emittedFor_of_mem_pieces {markup : Markup} {piece : TagPiece}
    (member : piece ∈ markup.pieces) : piece.EmittedFor markup := by
  -- The style of a tag is that of its span, which is a part of the whole markup.
  induction markup with
  | nil => contradiction
  | text content rest ih =>
    rcases List.mem_append.mp member with own | later
    · obtain ⟨symbol, -, rfl⟩ := List.mem_map.mp own
      trivial
    · exact (ih later).mono fun style has => has
  | span style inner rest inside behind =>
    -- Both tags of the span come from its style.
    have own : (span style inner rest).hasStyle style = true := by simp [hasStyle]
    simp only [pieces, List.cons_append, List.mem_cons, List.mem_append] at member
    rcases member with rfl | within | rfl | later
    · exact ⟨style, own, rfl⟩
    · exact (inside within).mono fun style has => by simp [hasStyle, has]
    · exact ⟨style, own, rfl⟩
    · exact (behind later).mono fun style has => by simp [hasStyle, has]

/-- The tags of written markup are balanced and properly nested. -/
theorem nested_pieces (markup : Markup) : TagPiece.Nested markup.pieces := by
  induction markup with
  | nil => exact .nil
  | text content rest ih =>
    rw [pieces]
    -- Characters in front do not matter.
    induction escape content with
    | nil => exact ih
    | cons head tail more => exact .character more
  | span style inner rest inside behind => exact .element inside behind

/-- Written markup is cut at its tags into its own pieces. -/
theorem cut_html (markup : Markup) (rest : Text) :
    TagPiece.cut none (markup.html ++ rest) =
      (TagPiece.cut none rest).map (markup.pieces ++ ·) := by
  -- The rest of the text is general, since a span is followed by its closing tag.
  induction markup generalizing rest with
  | nil => simp [html, pieces]
  | text content rest ih =>
    simp [html, pieces, TagPiece.cut_characters fun symbol => inert_of_mem_escape, ih,
      Function.comp_def]
  | span style inner rest inside behind =>
    -- The opening tag comes first, then what the span holds, then the closing tag.
    rw [html, style.tag.opening_eq, pieces, List.append_assoc, List.append_assoc, List.append_assoc,
      TagPiece.cut_tag (fun symbol => style.inert_of_mem_opening) style.ofBody_opening, inside]
    have closed := TagPiece.cut_tag (fun symbol => style.inert_of_mem_closing)
      style.ofBody_closing
    simp only [List.cons_append, List.nil_append] at closed
    simp [Tag.closing, closed, behind, Function.comp_def]

/-- Reading the pieces of markup adds the document that it stands for. -/
theorem foldlM_pieces (markup : Markup) (enclosing : List (Tag × Tagged)) (before : Tagged) :
    markup.pieces.foldlM TagReading.step ⟨enclosing, before⟩ =
      some ⟨enclosing, before.append markup.tagged⟩ := by
  induction markup generalizing enclosing before with
  | nil => simp [pieces, tagged]
  | text content rest ih =>
    simp [pieces, tagged, TagReading.foldlM_characters, ih, Tagged.append_assoc]
  | span style inner rest inside behind =>
    -- The element is opened on the stack, filled and closed again.
    simp [pieces, tagged, TagReading.step, inside, behind, Tagged.append_assoc]

/-- What markup stands for has its texts merged. -/
theorem merged_tagged (markup : Markup) : markup.tagged.Merged := by
  induction markup with
  | nil => trivial
  | text content rest ih => exact (Tagged.merged_ofText _).append ih
  | span style inner rest inside behind => exact ⟨inside, behind⟩

/-- Without its tags the written form of markup is the escaped text. -/
theorem stripTags_html (markup : Markup) (rest : Text) :
    stripTags false (markup.html ++ rest) =
      escape markup.plainText ++ stripTags false rest := by
  -- Text is kept as it is written, and tags are skipped from one end to the other.
  induction markup generalizing rest with
  | nil => simp [html, plainText, escape]
  | text content rest ih =>
    simp [html, plainText, stripTags_characters fun symbol => inert_of_mem_escape, ih,
      escape_append]
  | span style inner rest inside behind =>
    -- The opening tag is skipped, then what the span holds, then the closing tag.
    rw [html, style.tag.opening_eq, List.append_assoc, List.append_assoc, List.append_assoc,
      stripTags_tag fun symbol => style.inert_of_mem_opening, inside]
    have closed := stripTags_tag fun symbol => style.inert_of_mem_closing
    simp only [List.cons_append, List.nil_append] at closed
    simp [Tag.closing, closed, behind, plainText, escape_append]

/-- Nothing outside of tags and nothing inside of them begins an entity. -/
theorem no_entity_html (markup : Markup) : '&' ∉ markup.html := by
  intro found
  rw [← flatMap_written_pieces, List.mem_flatMap] at found
  obtain ⟨piece, member, within⟩ := found
  exact (safe_of_mem_pieces member).no_entity within

/-- Markup text is a row of characters and of tags from the markup's styles, balanced and properly
nested, in which the delimiters have no other use. Reading it by its tags gives the markup back,
with tags for styles and with escaped and merged texts, and without its tags it is the escaped text,
character for character. -/
theorem html_reads_back (markup : Markup) :
    TagPiece.cut none markup.html = some markup.pieces ∧
    markup.pieces.flatMap TagPiece.written = markup.html ∧
    (∀ piece ∈ markup.pieces, piece.Safe ∧ piece.EmittedFor markup) ∧
    '&' ∉ markup.html ∧
    TagPiece.Nested markup.pieces ∧
    Tagged.read markup.html = some markup.tagged ∧
    markup.tagged.Merged ∧
    stripTags false markup.html = escape markup.plainText ∧
    (stripTags false markup.html).length = markup.plainText.length := by
  -- With nothing behind the markup the laws of a rest become those of a whole document.
  have pieces : TagPiece.cut none markup.html = some markup.pieces := by
    simpa [TagPiece.cut] using cut_html markup []
  have read : Tagged.read markup.html = some markup.tagged := by
    simp [Tagged.read, pieces, foldlM_pieces]
  have stripped : stripTags false markup.html = escape markup.plainText := by
    simpa [stripTags] using stripTags_html markup []
  refine ⟨pieces, flatMap_written_pieces markup, ?_, no_entity_html markup, nested_pieces markup,
    read, merged_tagged markup, stripped, ?_⟩
  · intro piece member
    exact ⟨safe_of_mem_pieces member, emittedFor_of_mem_pieces member⟩
  · rw [stripped, escape, List.length_map]

/-- A text that looks like a tag does not close the span around it. -/
example : (span (.group 2) (text "</b>".toList nil) nil).html =
    "<b class=\"g2\">_/b_</b>".toList := by
  decide

end Markup

end RegexLens
