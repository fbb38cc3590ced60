import RegexLens.Proofs.Pattern.Rescanning

/-!
The rules by which a pattern is cut into tokens, said without the scanner: shapes in an order, the
first one that applies taken at its full length. The scanner finds the only such segmentation.
-/

namespace RegexLens

/-- The shapes that a token can have. -/
inductive Shape
  | characterClass
  | escape
  | groupOpen
  | quantifier
  | run
  | single
deriving DecidableEq, Repr

/-- The place of a shape in the order in which shapes are tried. -/
def Shape.rank : Shape → Nat
  | .characterClass => 0
  | .escape => 1
  | .groupOpen => 2
  | .quantifier => 3
  | .run => 4
  | .single => 5

/-- What a backslash can apply to, given what follows it. -/
inductive Escaped : Text → Text → Prop
  /-- A zero, and an octal code behind it if there is one. -/
  | zero (code rest : Text) (octal : code = [] ∨ OctalCode code) : Escaped ('0' :: code) rest
  /-- A number that does not start with zero. -/
  | number (first : Char) (digits rest : Text) (range : '1' ≤ first ∧ first ≤ '9')
      (decimal : ∀ digit ∈ digits, digit.isDigit = true) : Escaped (first :: digits) rest
  /-- A code of two hexadecimal digits. -/
  | byte (digits rest : Text) (code : IsHexCode 2 digits) : Escaped ('x' :: digits) rest
  /-- A code of four hexadecimal digits. -/
  | unit (digits rest : Text) (code : IsHexCode 4 digits) : Escaped ('u' :: digits) rest
  /-- A control character, named by a letter. -/
  | control (letter : Char) (rest : Text) (alpha : letter.isAlpha = true) :
      Escaped ['c', letter] rest
  /-- Any one character. -/
  | single (symbol : Char) (rest : Text) : Escaped [symbol] rest
  /-- Nothing, but only where the pattern ends. -/
  | nothing : Escaped [] []

/-- The pieces that have a shape, with their kinds and with what follows them. -/
inductive Fits : Shape → TokenKind → Text → Text → Prop
  /-- A class up to the bracket that closes it, or all that is left when nothing closes it. -/
  | characterClass (parts : ClassParts) (cuts : parts.Cuts (parts.text ++ parts.after)) :
      Fits .characterClass .characterClass parts.text parts.after
  /-- A backslash with what it applies to. -/
  | escape (sequence rest : Text) (escaped : Escaped sequence rest) :
      Fits .escape .escape ('\\' :: sequence) rest
  /-- An opening parenthesis with its group type, the last of which is incomplete. -/
  | groupOpen (type rest : Text)
      (known : type ∈ [[], ['?', ':'], ['?', '='], ['?', '!'], ['?']]) :
      Fits .groupOpen .groupOpen ('(' :: type) rest
  /-- A repetition, with or without the mark that makes it lazy. -/
  | quantifier (piece rest : Text) (bounds : Bounds) (isLazy : Bool)
      (repeats : RepeatsAs piece bounds isLazy) : Fits .quantifier .quantifier piece rest
  /-- Characters of which none has a meaning of its own. -/
  | run (piece rest : Text) (solid : piece ≠ [])
      (ordinary : ∀ symbol ∈ piece,
        symbol ∉ ['.', '?', '*', '+', '^', '$', '{', '[', '(', ')', '|', '\\']) :
      Fits .run .literal piece rest
  /-- The wildcard. -/
  | dot (rest : Text) : Fits .single .dot ['.'] rest
  /-- A closing parenthesis. -/
  | groupClose (rest : Text) : Fits .single .groupClose [')'] rest
  /-- The mark between alternatives. -/
  | alternator (rest : Text) : Fits .single .alternator ['|'] rest
  /-- The test for the start of the text. -/
  | textStart (rest : Text) : Fits .single .anchor ['^'] rest
  /-- The test for the end of the text. -/
  | textEnd (rest : Text) : Fits .single .anchor ['$'] rest
  /-- A brace, for want of an interval that it could open. -/
  | brace (rest : Text) : Fits .single .literal ['{'] rest

/-- The piece of a shape that is cut off in front of a rest. -/
structure Shape.Takes (shape : Shape) (kind : TokenKind) (piece rest : Text) : Prop where
  /-- The piece has the shape. -/
  fits : Fits shape kind piece rest
  /-- No piece at the front has a shape that is tried before. -/
  first : ∀ {other otherKind front back}, front ++ back = piece ++ rest →
    Fits other otherKind front back → shape.rank ≤ other.rank
  /-- No longer piece at the front has the same shape. -/
  full : ∀ {otherKind front back}, front ++ back = piece ++ rest →
    Fits shape otherKind front back → front.length ≤ piece.length

/-- The tokens into which a text is cut by the rules, from a byte offset on. -/
inductive Segments : Nat → Text → List Token → Prop
  | nil (offset : Nat) : Segments offset [] []
  | cons (offset : Nat) (shape : Shape) (kind : TokenKind) (piece rest : Text) (tokens : List Token)
      (takes : shape.Takes kind piece rest)
      (others : Segments (offset + byteSize piece) rest tokens) :
      Segments offset (piece ++ rest) (⟨kind, offset, piece⟩ :: tokens)

variable {shape other : Shape} {kind otherKind : TokenKind} {first : Char}
  {text tail piece rest front back : Text}

/-- The characters with which pieces of a shape start. -/
def Shape.Starts (shape : Shape) (first : Char) : Prop :=
  match shape with
  | .characterClass => first = '['
  | .escape => first = '\\'
  | .groupOpen => first = '('
  | .quantifier => first ∈ ['?', '*', '+', '{']
  | .run => isOrdinary first = true
  | .single => first ∈ ['.', ')', '|', '^', '$', '{']

/-- A class starts with its opening bracket. -/
theorem ClassParts.Cuts.starts {parts : ClassParts} (cuts : parts.Cuts text) :
    ∃ more, parts.text = '[' :: more := by
  rcases cuts.opening with marked | ⟨plain, _⟩
  · exact ⟨_, by rw [ClassParts.text, marked]; rfl⟩
  · exact ⟨_, by rw [ClassParts.text, plain]; rfl⟩

/-- Each piece starts with a character that is typical of its shape. -/
theorem Fits.starts (fits : Fits shape kind piece rest) :
    ∃ first more, piece = first :: more ∧ shape.Starts first := by
  -- Only a class and a run have to be looked into for their first character.
  cases fits with
  | characterClass parts cuts =>
    obtain ⟨more, starts⟩ := cuts.starts
    exact ⟨_, more, starts, rfl⟩
  | escape sequence => exact ⟨_, sequence, rfl, rfl⟩
  | groupOpen type => exact ⟨_, type, rfl, rfl⟩
  -- A repetition starts with its mark, or with its opening brace.
  | quantifier piece rest bounds isLazy repeats =>
    obtain ⟨body, repetition, rfl⟩ := repeats
    cases repetition <;> exact ⟨_, _, rfl, by simp [Shape.Starts]⟩
  | run piece rest solid ordinary =>
    obtain ⟨first, more, rfl⟩ := List.exists_cons_of_ne_nil solid
    have plain := ordinary first (by simp)
    exact ⟨first, more, rfl, by simpa [Shape.Starts, isOrdinary] using plain⟩
  | dot | groupClose | alternator | textStart | textEnd | brace =>
    exact ⟨_, _, rfl, by simp [Shape.Starts]⟩

/-- A piece at the front of a text starts with the text's first character. -/
theorem Fits.starts_of_append (fits : Fits shape kind front back)
    (cut : front ++ back = first :: tail) :
    shape.Starts first ∧ ∃ more, front = first :: more ∧ more ++ back = tail := by
  -- The piece is not empty, and so its first character is that of the text.
  obtain ⟨start, more, rfl, starts⟩ := fits.starts
  obtain ⟨rfl, rfl⟩ := List.cons.inj cut
  exact ⟨starts, more, rfl, rfl⟩

/-- A backslash takes at least the character behind it. -/
theorem escapeLength_pos (first : Char) (rest : Text) : 0 < escapeLength (first :: rest) := by
  -- A zero is taken with its code, and anything else as a number or as a sequence.
  by_cases zero : first = '0'
  · subst zero
    exact Nat.succ_pos _
  · rw [escapeLength.eq_3 _ _ zero]
    split
    · rename_i digit
      simp [digitRun, digit]
    · exact sequenceLength_pos (List.cons_ne_nil _ _)

/-- What a backslash can apply to is part of what the scanner takes. -/
theorem Escaped.length_le {sequence rest : Text} (escaped : Escaped sequence rest) :
    sequence.length ≤ escapeLength (sequence ++ rest) := by
  -- Each way to follow a backslash is compared with what the scanner looks for.
  cases escaped with
  | zero code rest octal =>
    have within : code.length ≤ octalLength (code ++ rest) := by
      rcases octal with rfl | octal
      · exact Nat.zero_le _
      · exact octal.length_le rest
    simpa [escapeLength] using within
  | number first digits rest range decimal =>
    -- The first digit is one like the others, except that it is not zero.
    have digit : first.isDigit = true ∧ first ≠ '0' := by
      simp only [Char.le_def, UInt32.le_iff_toNat_le, Char.toNat_val] at range
      have codes : '1'.toNat = 49 ∧ '9'.toNat = 57 ∧ '0'.toNat = 48 := by decide
      refine ⟨isDigit_iff.mpr (by omega), ?_⟩
      rintro rfl
      omega
    have run : digitRun (first :: digits ++ rest) = first :: digits ++ digitRun rest :=
      List.takeWhile_append_of_pos (by simpa [digit.1] using decimal)
    rw [List.cons_append, escapeLength.eq_3 _ _ digit.2, if_pos digit.1, ← List.cons_append, run,
      List.length_append]
    omega
  | byte digits rest code =>
    have found := startsWithHex_append code rest
    simp [escapeLength, sequenceLength, found, code.1]
  | unit digits rest code =>
    have found := startsWithHex_append code rest
    simp [escapeLength, sequenceLength, found, code.1]
  | control letter rest alpha => simp [escapeLength, sequenceLength, alpha]
  | single symbol rest => exact escapeLength_pos symbol rest
  | nothing => exact Nat.zero_le _

/-- A group type is part of what the scanner takes. -/
theorem groupType_length_le {type : Text}
    (known : type ∈ [[], ['?', ':'], ['?', '='], ['?', '!'], ['?']]) (rest : Text) :
    type.length ≤ groupTypeLength (type ++ rest) := by
  simp only [List.mem_cons, List.not_mem_nil, or_false] at known
  rcases known with rfl | rfl | rfl | rfl | rfl
  · exact Nat.zero_le _
  · exact Nat.le_refl 2
  · exact Nat.le_refl 2
  · exact Nat.le_refl 2
  · -- A question mark alone is taken when nothing better follows it.
    unfold groupTypeLength
    split <;> simp_all

/-- A lazy mark that is there is taken with what stands in front of it. -/
theorem length_le_withLazyMark (body rest : Text) (isLazy : Bool) :
    (body ++ if isLazy then ['?'] else []).length ≤
      withLazyMark body.length (body ++ (if isLazy then ['?'] else []) ++ rest) := by
  unfold withLazyMark
  cases isLazy with
  | true => simp
  | false =>
    -- A question mark in the rest would be taken as well.
    simp only [Bool.false_eq_true, if_false, List.append_nil]
    split <;> omega

/-- A repetition that starts with a brace is measured up to its other brace, whatever follows. -/
theorem RepeatsAs.measured {bounds : Bounds} {isLazy : Bool}
    (repeats : RepeatsAs ('{' :: piece) bounds isLazy) (rest : Text) :
    ∃ inner, piece = inner ++ (if isLazy then ['?'] else []) ∧
      intervalLength? (piece ++ rest) = some inner.length := by
  -- The body and the lazy mark are looked at apart.
  obtain ⟨body, repetition, same⟩ := repeats
  -- Of the repetitions only the intervals start with a brace.
  have interval (inner : Text) (complete : Repetition ('{' :: inner) bounds)
      (same : piece = inner ++ if isLazy then ['?'] else []) :
      ∃ inner, piece = inner ++ (if isLazy then ['?'] else []) ∧
        intervalLength? (piece ++ rest) = some inner.length := by
    refine ⟨inner, same, ?_⟩
    rw [same, List.append_assoc]
    exact intervalLength?_append complete _
  have whole := repetition
  cases repetition with
  | optional | any | some => simp at same
  | exact | atLeast | between =>
    rw [List.cons_append] at same
    exact interval _ whole (List.cons.inj same).2

/-- A quantifier is part of what the scanner takes. -/
theorem RepeatsAs.length_le {bounds : Bounds} {isLazy : Bool}
    (repeats : RepeatsAs (first :: piece) bounds isLazy) (rest : Text) :
    piece.length ≤ (tokenShape first (piece ++ rest)).2 := by
  -- An interval is measured by its braces, and the other quantifiers are one character.
  by_cases brace : first = '{'
  · subst brace
    obtain ⟨inner, rfl, measured⟩ := repeats.measured rest
    have marked := length_le_withLazyMark inner rest isLazy
    simpa only [tokenShape, measured] using marked
  · -- What starts with no brace is a single mark.
    obtain ⟨body, repetition, same⟩ := repeats
    cases repetition with
    | optional | any | some =>
      obtain ⟨rfl, rfl⟩ := List.cons.inj same
      exact length_le_withLazyMark [] rest isLazy
    | exact | atLeast | between => exact absurd (List.cons.inj same).1 brace

/-- A character without a meaning of its own starts a run of such characters. -/
theorem tokenShape_run (ordinary : isOrdinary first = true) (tail : Text) :
    tokenShape first tail = (.literal, (tail.takeWhile isOrdinary).length) := by
  unfold tokenShape
  -- Every other shape starts with a character that is not ordinary.
  split
  case h_13 => rfl
  all_goals exact absurd ordinary (by decide)

/-- No piece that fits is longer than the one that the scanner takes. -/
theorem Fits.length_le (fits : Fits shape kind front back) (cut : front ++ back = first :: tail) :
    front.length ≤ (tokenShape first tail).2 + 1 := by
  obtain ⟨starts, more, rfl, rfl⟩ := fits.starts_of_append cut
  -- The first character is always taken, so only what follows it has to be compared.
  apply Nat.succ_le_succ
  generalize same : first :: more = piece at fits
  -- The pieces of one shape are compared with what the scanner takes for that shape.
  cases fits with
  | characterClass parts cuts =>
    obtain rfl : first = '[' := starts
    -- There is only one way to cut a class.
    rw [← same, List.cons_append] at cuts
    have size := congrArg (fun parts => parts.text.length) (ClassParts.cuts_iff.mp cuts)
    simp only [← same, List.length_cons] at size
    simp only [tokenShape, ← size, Nat.add_sub_cancel, Nat.le_refl]
  -- A backslash takes as much as it can apply to.
  | escape sequence rest escaped =>
    obtain ⟨rfl, rfl⟩ := List.cons.inj same
    exact escaped.length_le
  | groupOpen type rest known =>
    obtain ⟨rfl, rfl⟩ := List.cons.inj same
    exact groupType_length_le known back
  | quantifier piece rest bounds isLazy repeats =>
    subst same
    exact repeats.length_le back
  -- A run is cut off at the first character that is not ordinary.
  | run piece rest solid ordinary =>
    subst same
    have plain : ∀ symbol ∈ more, isOrdinary symbol = true := by
      intro symbol member
      simpa [isOrdinary] using ordinary symbol (by simp [member])
    rw [tokenShape_run starts, List.takeWhile_append_of_pos plain, List.length_append]
    exact Nat.le_add_right _ _
  | dot | groupClose | alternator | textStart | textEnd | brace =>
    obtain ⟨rfl, rfl⟩ := List.cons.inj same
    exact Nat.zero_le _

/-- What the scanner takes behind a backslash is something that a backslash can apply to. -/
theorem escaped_take (tail : Text) :
    Escaped (tail.take (escapeLength tail)) (tail.drop (escapeLength tail)) := by
  -- The cases are those in which the scanner measures an escape.
  fun_cases escapeLength tail with
  | case1 => exact .nothing
  | case2 rest =>
    rw [List.take_succ_cons]
    refine .zero _ _ ?_
    -- Either there is no octal code behind the zero, or it is taken as a whole.
    rcases Nat.eq_zero_or_pos (octalLength rest) with none | found
    · exact .inl (by rw [none, List.take_zero])
    · exact .inr (octalCode_take found)
  -- A number is taken to its last digit.
  | case3 first rest zero digit =>
    have run : digitRun (first :: rest) = first :: digitRun rest := by simp [digitRun, digit]
    have cut : (first :: rest).take (digitRun (first :: rest)).length = digitRun (first :: rest) :=
      take_length_of_append List.takeWhile_append_dropWhile
    rw [cut, run]
    refine .number first _ _ ?_ fun _ member => isDigit_of_mem_digitRun member
    -- A digit that is not zero lies between one and nine.
    have apart : first.toNat ≠ '0'.toNat := fun same => zero (Char.toNat_inj.mp same)
    rw [isDigit_iff] at digit
    simp only [Char.le_def, UInt32.le_iff_toNat_le, Char.toNat_val]
    have codes : '1'.toNat = 49 ∧ '9'.toNat = 57 ∧ '0'.toNat = 48 := by decide
    omega
  -- Letters that need digits are followed by them, or they stand alone.
  | case4 first rest zero letter =>
    fun_cases sequenceLength (first :: rest) with
    | case2 rest found => exact .byte _ _ (startsWithHex_iff.mp found)
    | case4 rest found => exact .unit _ _ (startsWithHex_iff.mp found)
    | case6 letter rest alpha => exact .control letter _ alpha
    | case1 => exact .nothing
    | case3 | case5 | case7 | case8 => exact .single _ _

/-- A character that is no brace belongs to one shape. -/
theorem Shape.eq_of_starts (starts : shape.Starts first) (also : other.Starts first)
    (plain : first ≠ '{') : other = shape := by
  cases shape <;> cases other <;> simp_all [Shape.Starts, isOrdinary]
  -- The marks of quantifiers are not among the single characters.
  all_goals rcases starts with rfl | rfl | rfl | rfl | rfl <;> simp at also

/-- A brace alone is no quantifier. -/
theorem not_fits_brace : ¬ Fits .quantifier kind ['{'] rest := by
  intro fits
  cases fits with
  | quantifier _ _ bounds isLazy repeats =>
    -- An interval would be measured although nothing follows the brace.
    obtain ⟨_, _, measured⟩ := repeats.measured []
    simp [intervalLength?, digitRun] at measured

/-- The longest piece of all that fit is one of the first shape that applies. -/
theorem Fits.takes (fits : Fits shape kind piece rest)
    (longest : ∀ {other otherKind front back}, front ++ back = piece ++ rest →
      Fits other otherKind front back → front.length ≤ piece.length) :
    shape.Takes kind piece rest where
  fits := fits
  full := longest
  first := by
    -- Two shapes that apply at the same place start with the same character.
    intro other otherKind front back cut also
    obtain ⟨first, more, rfl, starts⟩ := fits.starts
    obtain ⟨startsAlso, others, rfl, _⟩ := also.starts_of_append cut
    by_cases brace : first = '{'
    · subst brace
      -- A brace opens an interval or stands alone, and the interval would be longer.
      cases shape <;> cases other <;>
        simp [Shape.Starts, isOrdinary, Shape.rank] at starts startsAlso ⊢
      have short := longest cut also
      cases fits
      obtain rfl : others = [] := by simpa using short
      exact not_fits_brace also
    · -- No other character starts pieces of two shapes.
      obtain rfl := Shape.eq_of_starts starts startsAlso brace
      exact Nat.le_refl _

/-- What the scanner takes has some shape. -/
theorem exists_fits (first : Char) (tail : Text) :
    ∃ shape, Fits shape (tokenShape first tail).1 (first :: tail.take (tokenShape first tail).2)
      (tail.drop (tokenShape first tail).2) := by
  -- Three marks are quantifiers on their own.
  have mark (known : first = '?' ∨ first = '*' ∨ first = '+') :
      ∃ shape, Fits shape .quantifier (first :: tail.take (withLazyMark 0 tail))
        (tail.drop (withLazyMark 0 tail)) := by
    obtain ⟨bounds, isLazy, repeats⟩ := repeatsAs_of_form (.mark first tail known)
    exact ⟨_, .quantifier _ _ bounds isLazy repeats⟩
  unfold tokenShape
  -- The first character decides, except that a brace may open an interval or not.
  split
  · have cuts := ClassParts.cuts_split tail
    have front := ClassParts.split_text_cons '[' tail
    generalize ClassParts.split ('[' :: tail) = parts at cuts front ⊢
    -- What is left behind the class is what the tail holds behind the rest of the class.
    have whole := cuts.whole
    rw [front, List.cons_append] at whole
    have behind : tail.drop (parts.text.length - 1) = parts.after := by
      have cut := List.take_append_drop (parts.text.length - 1) tail
      exact List.append_cancel_left (cut.trans (List.cons.inj whole).2)
    rw [cuts.whole] at cuts
    rw [behind, ← front]
    exact ⟨_, .characterClass parts cuts⟩
  · -- The other shapes are told apart by the first character alone.
    exact ⟨_, .escape _ _ (escaped_take tail)⟩
  · refine ⟨_, .groupOpen _ _ ?_⟩
    unfold groupTypeLength
    split <;> simp
  · exact mark (by simp)
  · exact mark (by simp)
  · exact mark (by simp)
  · split
    · rename_i length complete
      obtain ⟨bounds, isLazy, repeats⟩ := repeatsAs_of_form (.interval tail length complete)
      exact ⟨_, .quantifier _ _ bounds isLazy repeats⟩
    · exact ⟨_, .brace tail⟩
  · exact ⟨_, .dot tail⟩
  · exact ⟨_, .groupClose tail⟩
  · exact ⟨_, .alternator tail⟩
  · exact ⟨_, .textStart tail⟩
  · exact ⟨_, .textEnd tail⟩
  · -- The run ends where the ordinary characters do.
    have run : tail.take (tail.takeWhile isOrdinary).length = tail.takeWhile isOrdinary :=
      take_length_of_append List.takeWhile_append_dropWhile
    rw [run]
    refine ⟨_, .run _ _ (by simp) ?_⟩
    intro symbol member
    rcases List.mem_cons.mp member with rfl | later
    · simp_all
    · simpa [isOrdinary] using List.all_eq_true.mp List.all_takeWhile symbol later

/-- The scanner takes the first shape that applies at its full length. -/
theorem exists_takes (first : Char) (tail : Text) :
    ∃ shape : Shape, shape.Takes (tokenShape first tail).1
      (first :: tail.take (tokenShape first tail).2) (tail.drop (tokenShape first tail).2) := by
  obtain ⟨shape, fits⟩ := exists_fits first tail
  refine ⟨shape, fits.takes ?_⟩
  intro other otherKind front back cut also
  rw [List.cons_append, List.take_append_drop] at cut
  -- A piece is part of the text, so what lies beyond its end does not count.
  have within := also.length_le cut
  have bounded := congrArg List.length cut
  simp only [List.length_append, List.length_cons, List.length_take] at bounded ⊢
  omega

/-- A piece of a given shape has one kind. -/
theorem Fits.kind_unique (fits : Fits shape kind piece rest)
    (again : Fits shape otherKind piece back) : kind = otherKind := by
  -- Only the single characters differ in kind, and they differ in their pieces too.
  generalize same : piece = whole at again
  cases fits <;> cases again <;> simp at same ⊢

/-- At the front of a text there is one piece that can be taken. -/
theorem Shape.Takes.unique (takes : shape.Takes kind piece rest)
    (again : other.Takes otherKind front back) (cut : front ++ back = piece ++ rest) :
    kind = otherKind ∧ piece = front ∧ rest = back := by
  -- Neither shape is tried before the other one.
  have rank := Nat.le_antisymm (takes.first cut again.fits) (again.first cut.symm takes.fits)
  obtain rfl : shape = other := by
    cases shape <;> cases other <;> simp [Shape.rank] at rank ⊢
  have length := Nat.le_antisymm (takes.full cut again.fits) (again.full cut.symm takes.fits)
  obtain ⟨rfl, rfl⟩ := List.append_inj cut length
  exact ⟨takes.fits.kind_unique again.fits, rfl, rfl⟩

/-- A text is cut in one way. -/
theorem Segments.unique {offset : Nat} {tokens others : List Token}
    (segments : Segments offset text tokens) (again : Segments offset text others) :
    tokens = others := by
  -- The texts are cut from the front, and the first piece decides where the others start.
  induction segments generalizing others with
  | nil offset =>
    generalize none : ([] : Text) = text at again
    cases again with
    | nil => rfl
    | cons _ _ _ _ _ _ takes =>
      -- A piece has a first character, so nothing is cut into no pieces.
      obtain ⟨_, _, rfl, _⟩ := takes.fits.starts
      simp at none
  | cons offset shape kind piece rest tokens takes _ ih =>
    -- Both cuts begin with the longest piece of the first shape that applies, which is unique.
    generalize whole : piece ++ rest = text at again
    cases again with
    | nil =>
      obtain ⟨_, _, rfl, _⟩ := takes.fits.starts
      simp at whole
    | cons _ _ _ _ _ _ takesAlso segmentsAlso =>
      obtain ⟨rfl, rfl, rfl⟩ := takes.unique takesAlso whole.symm
      rw [ih segmentsAlso]

/-- The tokens of a scanner are cut by the rules. -/
theorem Scanner.segments_tokens (scanner : Scanner) :
    Segments scanner.position scanner.rest scanner.tokens := by
  -- Each step of the scanner takes one piece.
  fun_induction tokens scanner with
  | case1 scanner ended =>
    rw [next?_eq_none ended]
    exact .nil _
  | case2 scanner token after read _ ih =>
    unfold next? at read
    split at read
    · contradiction
    · rename_i first tail pending
      simp only [Option.some.injEq, Prod.mk.injEq] at read
      obtain ⟨rfl, rfl⟩ := read
      obtain ⟨shape, takes⟩ := exists_takes first tail
      have whole := Segments.cons scanner.position shape _ _ _ _ takes ih
      rwa [List.cons_append, List.take_append_drop, ← pending] at whole

/-- The tokens of a pattern are not empty, they are the pattern cut into pieces, and each starts
behind the bytes of those in front of it; and they are the only tokens into which the pattern is cut
by taking, at each place, the first shape that applies at its full length. -/
theorem scan_is_only_segmentation (pattern : Text) :
    (∀ token ∈ scan pattern, token.text ≠ []) ∧
      (scan pattern).flatMap Token.text = pattern ∧
      (∀ front token back, scan pattern = front ++ token :: back →
        token.start = byteSize (front.flatMap Token.text) ∧
          slice pattern token.start (token.start + byteSize token.text) = token.text) ∧
      ∀ tokens, Segments 0 pattern tokens ↔ tokens = scan pattern := by
  have text := scan_text pattern
  -- The last two parts are about the place of a token and about all other cuts.
  refine ⟨fun token member => (scan_shaped pattern token member).nonempty, text, ?_, ?_⟩
  · intro front token back cut
    have contiguous := scan_contiguous pattern
    rw [cut, contiguous_append] at contiguous
    have start : token.start = byteSize (front.flatMap Token.text) := by
      simpa using contiguous.2.1
    refine ⟨start, ?_⟩
    -- The pattern is what stands in front of the token, the token, and what stands behind it.
    have pieces : front.flatMap Token.text ++ token.text ++ back.flatMap Token.text = pattern := by
      rw [← text, cut, List.flatMap_append, List.flatMap_cons, List.append_assoc]
    rw [start, ← pieces, slice_append]
  · -- The tokens are a cut by the rules, and there is only one.
    intro tokens
    have segments : Segments 0 pattern (scan pattern) := (Scanner.start pattern).segments_tokens
    constructor
    · exact fun other => other.unique segments
    · rintro rfl
      exact segments

end RegexLens
