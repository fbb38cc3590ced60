import RegexLens.Markup.Style

/-! Documents of texts and elements, and a reader that finds them in a text by its tags. -/

namespace RegexLens

/-- A character that has no part in a tag's delimiters or in an entity. -/
def Inert (symbol : Char) : Prop :=
  symbol ≠ '<' ∧ symbol ≠ '>' ∧ symbol ≠ '&'

/-- A document as its tags show it, each text and each element given with what follows it. -/
inductive Tagged
  /-- The end of a sequence. -/
  | nil
  /-- A text between tags. -/
  | text (content : Text) (rest : Tagged)
  /-- What stands between an opening tag and the tag that closes it. -/
  | element (tag : Tag) (inner : Tagged) (rest : Tagged)
deriving DecidableEq, Repr

namespace Tagged

/-- Puts a document behind another, where two texts that meet become one. -/
def append (first second : Tagged) : Tagged :=
  match first, second with
  | nil, second => second
  -- Two texts meet only where the first document ends with one.
  | text content nil, text following rest => text (content ++ following) rest
  | text content rest, second => text content (rest.append second)
  | element tag inner rest, second => element tag inner (rest.append second)

/-- The document of a text alone, which has no node when the text is empty. -/
def ofText (content : Text) : Tagged :=
  if content = [] then nil else text content nil

/-- Whether a document begins with a text. -/
def startsWithText : Tagged → Bool
  | text _ _ => true
  | _ => false

/-- No text of the document is empty, and no two stand side by side. -/
def Merged : Tagged → Prop
  | nil => True
  | text content rest => content ≠ [] ∧ rest.startsWithText = false ∧ rest.Merged
  | element _ inner rest => inner.Merged ∧ rest.Merged

/-- Nothing in front changes nothing. -/
@[simp] theorem nil_append (document : Tagged) : nil.append document = document := by
  simp [append]

/-- An element in front is kept as it is. -/
@[simp] theorem element_append (tag : Tag) (inner rest document : Tagged) :
    (element tag inner rest).append document = element tag inner (rest.append document) := by
  simp [append]

/-- Nothing behind changes nothing. -/
@[simp] theorem append_nil (document : Tagged) : document.append nil = document := by
  induction document with
  | nil => rfl
  | text content rest ih => simp [append, ih]
  | element tag inner rest _ ih => simp [ih]

/-- Of three documents in a row, it does not matter which two are joined first. -/
theorem append_assoc (first second third : Tagged) :
    (first.append second).append third = first.append (second.append third) := by
  induction first with
  | nil => simp
  | element tag inner rest _ ih => simp [ih]
  | text content rest ih =>
    cases rest with
    | nil =>
      -- The text meets the second document, whose own end may meet the third.
      cases second with
      | nil => simp
      | element tag inner rest => simp [append]
      | text following rest => cases rest <;> cases third <;> simp [append]
    | element tag inner rest => simpa [append] using ih
    | text following rest =>
      -- What follows the first text is still there after it has been joined to the second document.
      cases rest <;> cases second <;> simp_all [append]

/-- The text that two texts in a row make up. -/
theorem ofText_append_ofText (first second : Text) :
    (ofText first).append (ofText second) = ofText (first ++ second) := by
  unfold ofText
  -- An empty text adds no node, neither in front nor behind.
  by_cases nothing : first = []
  · simp [nothing]
  · by_cases more : second = []
    · simp [nothing, more]
    · simp [nothing, more, append]

/-- Joining documents keeps their texts merged. -/
theorem Merged.append {first second : Tagged} (front : first.Merged) (back : second.Merged) :
    (first.append second).Merged := by
  -- Only the last text of the first document can be next to a text of the second one.
  fun_induction Tagged.append first second with
  | case1 => exact back
  | case2 content following rest => exact ⟨by simp [front.1], back.2⟩
  | case3 content rest second apart ih =>
    refine ⟨front.1, ?_, ih front.2.2 back⟩
    cases rest with
    | nil =>
      -- The second document does not begin with a text, which would have been joined.
      cases second with
      | text following rest => exact absurd rfl (apart following rest rfl)
      | nil => rfl
      | element tag inner rest => rfl
    | text following rest => exact absurd front.2.1 (by simp [startsWithText])
    | element tag inner rest => simp [startsWithText]
  | case4 tag inner rest second ih => exact ⟨front.1, ih front.2 back⟩

/-- A text alone is merged. -/
theorem merged_ofText (content : Text) : (ofText content).Merged := by
  unfold ofText
  -- Without characters there is no node, and otherwise there is one text.
  split
  · trivial
  · rename_i some
    exact ⟨some, rfl, trivial⟩

end Tagged

/-- What markup text is made of when it is cut at its tags. -/
inductive TagPiece
  /-- A character outside of all tags. -/
  | character (content : Char)
  /-- A tag that opens an element. -/
  | opening (tag : Tag)
  /-- A tag that closes an element, which it names by its letter. -/
  | closing (element : Char)
deriving DecidableEq, Repr

namespace TagPiece

/-- The text of a piece. -/
def written : TagPiece → Text
  | .character content => [content]
  | .opening tag => tag.opening
  | .closing element => ['<', '/', element, '>']

/-- A character, or a tag in which the delimiters stand at the two ends only. -/
def Safe : TagPiece → Prop
  | .character content => Inert content
  | piece => ∃ body, piece.written = '<' :: body ++ ['>'] ∧ ∀ symbol ∈ body, Inert symbol

/-- A safe piece does not begin an entity. -/
theorem Safe.no_entity {piece : TagPiece} (safe : piece.Safe) : '&' ∉ piece.written := by
  intro within
  -- A tag that is safe holds inert characters between its two delimiters.
  have tagged : (∃ body, piece.written = '<' :: body ++ ['>'] ∧ ∀ symbol ∈ body, Inert symbol) →
      False := by
    rintro ⟨body, shape, inert⟩
    have inBody : '&' ∈ body := by simpa [shape] using within
    exact (inert '&' inBody).2.2 rfl
  cases piece with
  | character content => exact safe.2.2 (List.mem_singleton.mp within).symm
  | opening tag => exact tagged safe
  | closing element => exact tagged safe

/-- Every opening tag is closed by a tag of its element, behind elements that are closed too. -/
inductive Nested : List TagPiece → Prop
  /-- Nothing is open at the start. -/
  | nil : Nested []
  /-- A character opens and closes nothing. -/
  | character {content : Char} {rest : List TagPiece} :
      Nested rest → Nested (.character content :: rest)
  /-- An element ends where its own tag closes it. -/
  | element {tag : Tag} {inner rest : List TagPiece} :
      Nested inner → Nested rest → Nested (.opening tag :: inner ++ .closing tag.element :: rest)

/-- The label that the attributes of a tag give it, when they are none or a class alone. -/
def label? (attributes : Text) : Option Text :=
  -- Eight characters lead up to the label, and one quote ends it.
  let label := (attributes.drop 8).dropLast
  if attributes = [] then some []
  else if label ≠ [] ∧ '"' ∉ label ∧ attributes = " class=\"".toList ++ label ++ ['"'] then
    some label
  else none

/-- The tag between whose delimiters a text stands. -/
def ofBody : Text → Option TagPiece
  | [] => none
  | element :: attributes =>
    -- A closing tag holds its slash and a single letter.
    if element = '/' then
      match attributes with
      | [closed] => some (.closing closed)
      | _ => none
    else (label? attributes).map fun label => .opening ⟨element, label⟩

/-- Cuts a text at its tags, given what has been read of a tag that is still open. -/
def cut (reading : Option Text) (text : Text) : Option (List TagPiece) :=
  match reading, text with
  | none, [] => some []
  -- The tag never ends.
  | some _, [] => none
  | none, symbol :: rest =>
    if symbol = '<' then cut (some []) rest
    -- A loose delimiter or an entity is not understood.
    else if symbol = '>' || symbol = '&' then none
    else (cut none rest).map (.character symbol :: ·)
  | some body, symbol :: rest =>
    if symbol = '>' then do
      let piece ← ofBody body
      let pieces ← cut none rest
      return piece :: pieces
    else if symbol = '<' then none
    else cut (some (body ++ [symbol])) rest

/-- A text without characters of markup is cut into its characters. -/
theorem cut_characters {content : Text} (inert : ∀ symbol ∈ content, Inert symbol) (rest : Text) :
    cut none (content ++ rest) = (cut none rest).map (content.map character ++ ·) := by
  -- Each character is a piece, since none of them is a delimiter.
  induction content with
  | nil => simp
  | cons head tail ih =>
    obtain ⟨⟨noOpening, noClosing, noEntity⟩, others⟩ := List.forall_mem_cons.mp inert
    simp [cut, noOpening, noClosing, noEntity, ih others, Function.comp_def]

/-- A tag ends at the first delimiter behind its body. -/
theorem cut_body {body : Text} (inert : ∀ symbol ∈ body, Inert symbol) (front rest : Text) :
    cut (some front) (body ++ '>' :: rest) =
      (ofBody (front ++ body)).bind fun piece => (cut none rest).map (piece :: ·) := by
  -- The characters of the body join what has been read of the tag.
  induction body generalizing front with
  | nil =>
    rw [List.nil_append, List.append_nil, cut, if_pos rfl]
    cases cut none rest with
    | none => rfl
    | some pieces => rfl
  | cons head tail ih =>
    obtain ⟨⟨noOpening, noClosing, -⟩, others⟩ := List.forall_mem_cons.mp inert
    simp [cut, noOpening, noClosing, ih others]

/-- A tag is cut off as a piece when its body is understood. -/
theorem cut_tag {body : Text} {piece : TagPiece} (inert : ∀ symbol ∈ body, Inert symbol)
    (understood : ofBody body = some piece) (rest : Text) :
    cut none ('<' :: body ++ ['>'] ++ rest) = (cut none rest).map (piece :: ·) := by
  have inside := cut_body inert [] rest
  simpa [cut, understood] using inside

end TagPiece

/-- A document that is being read, with the elements that are open. -/
structure TagReading where
  /-- The open elements, innermost first, each with what stands in front of it. -/
  enclosing : List (Tag × Tagged)
  /-- What has been read inside of the innermost one. -/
  inside : Tagged

namespace TagReading

/-- Reads a piece, where a closing tag has to name the element that is open. -/
def step (reading : TagReading) : TagPiece → Option TagReading
  -- What is read goes into the innermost element that is open.
  | .character content => some { reading with inside := reading.inside.append (.ofText [content]) }
  | .opening tag => some ⟨(tag, reading.inside) :: reading.enclosing, .nil⟩
  | .closing element =>
    -- A closing tag needs an element to close.
    match reading.enclosing with
    | [] => none
    | (tag, before) :: outer =>
      if tag.element = element then
        some ⟨outer, before.append (.element tag reading.inside .nil)⟩
      else none

/-- Reading characters adds their text. -/
theorem foldlM_characters (enclosing : List (Tag × Tagged)) (before : Tagged) (content : Text) :
    (content.map TagPiece.character).foldlM step ⟨enclosing, before⟩ =
      some ⟨enclosing, before.append (.ofText content)⟩ := by
  -- Each character is put behind the text so far, where the two become one.
  induction content generalizing before with
  | nil => simp [Tagged.ofText]
  | cons head tail ih =>
    rw [List.map_cons, List.foldlM_cons, step, Option.bind_eq_bind, Option.bind_some, ih,
      Tagged.append_assoc, Tagged.ofText_append_ofText]
    rfl

end TagReading

/-- The document that a text shows by its tags, if all of them are understood and closed. -/
def Tagged.read (text : Text) : Option Tagged := do
  let pieces ← TagPiece.cut none text
  let reading ← pieces.foldlM TagReading.step ⟨[], .nil⟩
  if reading.enclosing.isEmpty then some reading.inside else none

/-- The text without its tags, given whether it starts inside of one. -/
def stripTags (inside : Bool) : Text → Text
  | [] => []
  | symbol :: rest =>
    -- A delimiter is dropped, and it says whether what follows is inside of a tag.
    if symbol = '<' then stripTags true rest
    else if symbol = '>' then stripTags false rest
    else if inside then stripTags inside rest
    else symbol :: stripTags inside rest

/-- A text without delimiters is kept outside of tags. -/
theorem stripTags_characters {content : Text} (inert : ∀ symbol ∈ content, Inert symbol)
    (rest : Text) : stripTags false (content ++ rest) = content ++ stripTags false rest := by
  -- Outside of tags each character is kept, since none of them opens one.
  induction content with
  | nil => rfl
  | cons head tail ih =>
    obtain ⟨⟨noOpening, noClosing, -⟩, others⟩ := List.forall_mem_cons.mp inert
    simp [stripTags, noOpening, noClosing, ih others]

/-- A text without delimiters is dropped inside of a tag. -/
theorem stripTags_body {body : Text} (inert : ∀ symbol ∈ body, Inert symbol) (rest : Text) :
    stripTags true (body ++ rest) = stripTags true rest := by
  -- Inside of a tag each character is dropped, since none of them ends it.
  induction body with
  | nil => rfl
  | cons head tail ih =>
    obtain ⟨⟨noOpening, noClosing, -⟩, others⟩ := List.forall_mem_cons.mp inert
    simp [stripTags, noOpening, noClosing, ih others]

/-- A tag is dropped from its start to its end. -/
theorem stripTags_tag {body : Text} (inert : ∀ symbol ∈ body, Inert symbol) (rest : Text) :
    stripTags false ('<' :: body ++ ['>'] ++ rest) = stripTags false rest := by
  have inside := stripTags_body inert ('>' :: rest)
  simpa [stripTags] using inside

end RegexLens
