import RegexLens.Proofs.Host.Spelling
import RegexLens.Proofs.Pattern.Numbered
import RegexLens.Proofs.Pattern.TokenReading

/-! The host form of every token that is a phrase of its own spells the trees that it stands for. -/

namespace RegexLens

open Lexeme

/-- Tokens that follow one another are spelled one behind the other. -/
theorem tokensForm_append (groups : Nat) (first second : List Token) :
    tokensForm groups (first ++ second) =
      tokensForm groups first ++ tokensForm (groups + capturesIn first) second := by
  induction first generalizing groups with
  | nil => rfl
  | cons token rest ih =>
    -- The spelling counts a group where the tokens do.
    have opened : (if token.kind = .groupOpen && token.text = ['('] then 1 else 0) =
        if token.captures then 1 else 0 := rfl
    rw [List.cons_append, tokensForm, tokensForm, ih, capturesIn_cons, opened, List.append_assoc,
      Nat.add_assoc, Nat.add_comm (capturesIn rest)]

/-- One token is spelled by its own form. -/
theorem tokensForm_singleton (groups : Nat) (token : Token) :
    tokensForm groups [token] = tokenForm groups token := by
  simp [tokensForm]

/-- A group is written as its opening as it stands, its contents, and its end. -/
theorem tokensForm_group (groups : Nat) {opening closing : Token} {inner : List Token}
    (opens : opening.kind = .groupOpen) (closes : closing.kind = .groupClose)
    (shaped : closing.Shaped) :
    tokensForm groups (opening :: (inner ++ [closing])) =
      opening.text ++ tokensForm (groups + capturesIn [opening]) inner ++ [')'] := by
  -- The tokens of the group are the opening, what is between, and the bracket.
  have shape := shaped.form
  rw [closes] at shape
  have ending (groups : Nat) : tokenForm groups closing = [')'] := by
    rw [tokenForm, closes, shape.of_groupClose]
  have beginning : tokenForm groups opening = opening.text := by rw [tokenForm, opens]
  rw [← List.singleton_append, tokensForm_append, tokensForm_append, tokensForm_singleton,
    tokensForm_singleton, beginning, ending, List.append_assoc]

/-- A quantifier is written as it stands behind what it repeats. -/
theorem tokensForm_quantifier (groups : Nat) (atom : List Token) {quantifier : Token}
    (kind : quantifier.kind = .quantifier) :
    tokensForm groups (atom ++ [quantifier]) = tokensForm groups atom ++ quantifier.text := by
  rw [tokensForm_append, tokensForm_singleton, tokenForm, kind]

/-- A bar is written as it stands between two alternatives. -/
theorem tokensForm_bar (groups : Nat) (sequence rest : List Token) {bar : Token}
    (kind : bar.kind = .alternator) (shaped : bar.Shaped) :
    tokensForm groups (sequence ++ bar :: rest) =
      tokensForm groups sequence ++ '|' :: tokensForm (groups + capturesIn sequence) rest := by
  have shape := shaped.form
  rw [kind] at shape
  -- The bar opens no group, so the groups behind it are counted as in front.
  have silent : bar.captures = false := Token.captures_of_kind (by simp [kind])
  have mark : tokenForm (groups + capturesIn sequence) bar = ['|'] := by
    rw [tokenForm, kind, shape.of_alternator]
  rw [tokensForm_append, ← List.singleton_append, tokensForm_append, tokensForm_singleton, mark]
  simp [silent]

/-- A text that starts with no mark of a quantifier is calm, whatever follows its first character. -/
theorem calm_of_cons {first : Char} (more : Text) (start : first ≠ '?' ∧ first ≠ '+') :
    Calm (first :: more) := by
  simpa [Calm] using start

/-- What is left by units that follow one another is what the last ones leave. -/
theorem leaves_append (repeatable : Bool) (first second : List Lexeme) :
    leaves repeatable (first ++ second) = leaves (leaves repeatable first) second :=
  List.foldl_append

/-- A repetition can follow characters where it can follow what stands in front of them. -/
theorem leaves_chars (text : Text) :
    leaves true (text.map fun symbol => .atom (.char symbol)) = true := by
  induction text with
  | nil => rfl
  | cons first rest ih => exact ih

/-- A phrase stands for trees, and its host form spells them. -/
structure Spelled (phrase : Phrase) (groups : Nat) (tokens : List Token)
    (trees : List PatternTree) : Prop where
  reads : Reads phrase groups tokens trees
  -- Only an atom can have a quantifier behind it.
  spells : Spells (fun rest => phrase = .atom ∨ Calm rest) (tokensForm groups tokens)
    (trees.flatMap PatternTree.lexemes)
  calm : ∀ rest, phrase = .atom ∨ Calm rest → Calm (tokensForm groups tokens ++ rest)
  repeatable : phrase = .atom → ∀ before,
    leaves before (trees.flatMap PatternTree.lexemes) = true

namespace Spelled

variable {groups : Nat} {token : Token} {trees : List PatternTree}

/-- An atom of one token is spelled by the form of the token. -/
theorem leaf (reads : Reads .atom groups [token] trees) {first : Char} {more : Text}
    (form : tokenForm groups token = first :: more) (start : first ≠ '?' ∧ first ≠ '+')
    (spells : Spells (fun _ => True) (tokenForm groups token)
      (trees.flatMap PatternTree.lexemes))
    (repeatable : ∀ before, leaves before (trees.flatMap PatternTree.lexemes) = true) :
    Spelled .atom groups [token] trees where
  reads := reads
  spells := by
    rw [tokensForm_singleton]
    -- A single token is spelled by its own form.
    exact spells.weaken
  calm rest _ := by
    rw [tokensForm_singleton, form]
    exact calm_of_cons _ start
  repeatable _ := repeatable

/-- A test of one token is spelled by the form of the token. -/
theorem test (reads : Reads .term groups [token] trees) {first : Char} {more : Text}
    (form : tokenForm groups token = first :: more) (start : first ≠ '?' ∧ first ≠ '+')
    (spells : Spells (fun _ => True) (tokenForm groups token)
      (trees.flatMap PatternTree.lexemes)) :
    Spelled .term groups [token] trees where
  reads := reads
  spells := by
    rw [tokensForm_singleton]
    exact spells.weaken
  -- The form starts with its first character, which is no mark of a quantifier.
  calm rest _ := by
    rw [tokensForm_singleton, form]
    exact calm_of_cons _ start
  repeatable atom := by contradiction

end Spelled

/-- A literal run spells its characters. -/
theorem exists_spelled_literal (groups : Nat) {token : Token} (kind : token.kind = .literal)
    (shaped : token.Shaped) : ∃ trees, Spelled .atom groups [token] trees := by
  -- A literal is written with its operators quoted.
  have form : tokenForm groups token = quoteWhere isHostOperator token.text := by
    rw [tokenForm, kind]
  obtain ⟨first, rest, text⟩ := List.exists_cons_of_ne_nil shaped.nonempty
  -- A mark of a quantifier is an operator, so it never stands at the front unquoted.
  have start : ∃ next more, quoteWhere isHostOperator token.text = next :: more ∧
      next ≠ '?' ∧ next ≠ '+' := by
    rw [text]
    simp only [quoteWhere, List.flatMap_cons]
    split
    · exact ⟨'\\', _, rfl, by decide, by decide⟩
    · rename_i ordinary
      refine ⟨first, _, rfl, ?_, ?_⟩ <;> rintro rfl <;> exact ordinary (by decide)
  obtain ⟨next, more, starts, calm⟩ := start
  refine ⟨_, Spelled.leaf (.literal groups token kind) (form.trans starts) calm ?_ ?_⟩
  · rw [form, PatternTree.lexemes_chars]
    exact spells_quoteWhere token.text
  · -- The last character can be repeated, and the quantifier applies to it alone.
    intro before
    rw [PatternTree.lexemes_chars, text]
    exact leaves_chars rest

/-- A wildcard spells a set. -/
theorem exists_spelled_dot (groups : Nat) {token : Token} (kind : token.kind = .dot) :
    ∃ trees, Spelled .atom groups [token] trees := by
  -- The set of the dot is written in brackets.
  obtain ⟨members, contains, spells⟩ := spells_dot
  have form : tokenForm groups token = dotForm := by rw [tokenForm, kind]
  refine ⟨_, Spelled.leaf (.dot groups token kind members contains) (form.trans rfl)
    (by decide) ?_ fun _ => rfl⟩
  rw [form]
  exact spells

/-- A good class spells the set of its characters. -/
theorem exists_spelled_class (groups : Nat) {token : Token} (kind : token.kind = .characterClass)
    (good : GoodClass token.text) (shaped : token.Shaped) (encodable : token.Encodable) :
    ∃ trees, Spelled .atom groups [token] trees := by
  have shape := shaped.form
  rw [kind] at shape
  obtain ⟨⟨tail, text⟩, _⟩ := shape.of_characterClass
  -- What the token can encode its atoms can.
  have each : ∀ atom ∈ classAtoms token.text, atom.Encodable := by
    simpa [Token.Encodable, kind] using encodable
  rw [text] at good each
  obtain ⟨members, written, _, contains⟩ := classForm_syntax good each
  rw [← text] at written contains
  have form : tokenForm groups token = classForm token.text := by rw [tokenForm, kind]
  -- The written class begins with its bracket.
  obtain ⟨_, _, _, _, opens⟩ := id written
  refine ⟨_, Spelled.leaf (.characterClass groups token kind members contains)
    (form.trans opens) (by decide) ?_ fun _ => rfl⟩
  rw [form]
  exact spells_set written

/-- A code in front of characters is spelled with a backslash at its front. -/
theorem codePointForm_cons (code : Nat) : ∃ more, codePointForm code = '\\' :: more :=
  ⟨_, by rw [codePointForm, List.append_assoc]; rfl⟩

/-- An escape that tests for no boundary is a number, a shorthand class or a character. -/
theorem escapeForm_eq (groups : Nat) {sequence : Text} (notLower : sequence ≠ ['b'])
    (notUpper : sequence ≠ ['B']) :
    escapeForm groups sequence =
      if startsNumbered sequence then numberedForm groups sequence
      else if isMetaclass sequence then '[' :: metaclassForm sequence ++ [']']
      else characterForm sequence := by
  -- The two tests are left out, and what is left is the general case.
  unfold escapeForm
  split
  · contradiction
  · contradiction
  · rfl

/-- A reference is spelled in a group of its own, so that no digit behind it belongs to it. -/
theorem numberedForm_reference {groups group length : Nat} {digits : Text}
    (numbered : startsNumbered digits = true)
    (read : NumberReads (largestGroup groups) digits (.reference group length)) :
    numberedForm groups digits =
      "(?:".toList ++ ('\\' :: decimalDigits group ++ [')']) ++ digits.drop length := by
  -- The number that was read is the one that the code resolves the digits to.
  obtain ⟨_, resolved⟩ := (numberReads_iff numbered).mp read
  have spelled : decimalDigits group = digits.take length := (read.group_spelled numbered rfl).2.2
  simp only [NumberedEscape.resolve] at resolved
  split at resolved
  · rename_i some
    obtain ⟨-, rfl⟩ := NumberedEscape.reference.inj resolved
    rw [numberedForm, if_pos some, spelled]
    simp
  · contradiction

/-- A number that refers to no group is spelled by its code. -/
theorem numberedForm_code {groups value length : Nat} {digits : Text}
    (numbered : startsNumbered digits = true)
    (read : NumberReads (largestGroup groups) digits (.code value length)) :
    numberedForm groups digits = codePointForm value ++ digits.drop length := by
  -- No group is named, so the digits in front are read as an escape.
  obtain ⟨_, resolved⟩ := (numberReads_iff numbered).mp read
  have found := read.spellsCode.escapeCode.eq_sequenceCode?
  simp only [NumberedEscape.resolve] at resolved
  split at resolved
  · contradiction
  · rename_i absent
    obtain ⟨-, rfl⟩ := NumberedEscape.code.inj resolved
    simp only [numberedForm, if_neg absent, characterForm, found]

/-- A number spells a reference or a character, and then the digits that it does not use. -/
theorem exists_spelled_number (groups : Nat) {token : Token} (kind : token.kind = .escape)
    {digits : Text} (text : token.text = '\\' :: digits) (numbered : startsNumbered digits = true)
    (numeric : ∀ digit ∈ digits, digit.isDigit = true) :
    ∃ trees, Spelled .atom groups [token] trees := by
  -- No letter that tests for a boundary is a digit.
  have form : tokenForm groups token = numberedForm groups digits := by
    obtain ⟨_, notLower, notUpper⟩ := startsNumbered_excludes numbered
    rw [tokenForm, kind, text]
    simp only [List.drop_succ_cons, List.drop_zero, escapeForm_eq groups notLower notUpper, numbered,
      if_true]
  have read : NumberReads (largestGroup groups) digits (.resolve groups digits) :=
    numberReads_resolve numbered numeric
  generalize NumberedEscape.resolve groups digits = escape at read
  -- A number is a reference or a code, with digits left over behind it.
  cases escape with
  | reference group length =>
    have spelled := form.trans (numberedForm_reference numbered read)
    refine ⟨_, Spelled.leaf (.reference groups token kind digits text
      (isNumbered_iff.mpr numbered) group length read)
      (spelled.trans rfl) (by decide) ?_ ?_⟩
    · rw [spelled, List.flatMap_cons, PatternTree.lexemes_chars]
      have opening : Spells (fun _ => True) "(?:".toList [.openGroup .plain] :=
        spells_opening (by simp [groupTypes])
      -- The end of the group is no digit.
      have number : Spells (fun _ => True) ('\\' :: decimalDigits group ++ [')'])
          [.atom (.reference group), .closeGroup] :=
        (spells_reference group).append spells_closing fun rest _ next starts => by
          obtain rfl := Option.some.inj starts
          decide
      -- What is written is an opening, the reference with its closing, and the digits left over.
      exact (opening.followed number).followed
        (spells_digits fun digit member => numeric digit (List.mem_of_mem_drop member))
    · intro before
      rw [List.flatMap_cons, PatternTree.lexemes_chars, leaves_append]
      exact leaves_chars _
  | code value length =>
    -- A code that a number is read as denotes a character.
    obtain ⟨symbol, same, spells⟩ := spells_codePoint read.spellsCode.isValidChar
    have spelled := form.trans (numberedForm_code numbered read)
    obtain ⟨more, starts⟩ := codePointForm_cons value
    rw [← same] at read
    refine ⟨_, Spelled.leaf (.code groups token kind digits text
      (isNumbered_iff.mpr numbered) symbol length read)
      (spelled.trans (by rw [starts, List.cons_append])) (by decide) ?_ ?_⟩
    · -- What is written is the code, and then the digits left over.
      rw [spelled, List.flatMap_cons, PatternTree.lexemes_chars]
      exact spells.followed
        (spells_digits fun digit member => numeric digit (List.mem_of_mem_drop member))
    · intro before
      rw [List.flatMap_cons, PatternTree.lexemes_chars, leaves_append]
      exact leaves_chars _

/-- A good escape spells a set, a reference or a character. -/
theorem exists_spelled_escape (groups : Nat) {token : Token} (kind : token.kind = .escape)
    (good : GoodEscape token.text) (shaped : token.Shaped) (encodable : token.Encodable) :
    ∃ trees, Spelled .atom groups [token] trees := by
  -- Digits are told apart from the other sequences first.
  have shape := shaped.form
  rw [kind] at shape
  obtain ⟨sequence, text, number, other⟩ := shape.escape_sequence
  cases numbered : startsNumbered sequence with
  | true => exact exists_spelled_number groups kind text numbered (number numbered)
  | false =>
    -- A good escape is complete and no test.
    have whole := good
    rw [text, goodEscape_cons] at whole
    obtain ⟨nonempty, complete, notLower, notUpper⟩ := whole
    have form : tokenForm groups token =
        if isMetaclass sequence then '[' :: metaclassForm sequence ++ [']']
        else characterForm sequence := by
      rw [tokenForm, kind, text]
      simp [escapeForm_eq groups notLower notUpper, numbered]
    -- A shorthand class is put in brackets, and a character is given by its code.
    cases named : isMetaclass sequence with
    | true =>
      obtain ⟨members, contains, spells⟩ := spells_shorthand named
      rw [named, if_pos rfl] at form
      refine ⟨_, Spelled.leaf (.shorthand groups token kind sequence text
        (isShorthand_iff.mpr named) members contains) form (by decide) ?_ fun _ => rfl⟩
      rw [form]
      exact spells
    | false =>
      -- The sequence is complete and no surrogate, so that it denotes a character.
      rw [named, if_neg (by simp)] at form
      have sequenceForm := other numbered
      have surrogate : namesSurrogate sequence = false := by
        simpa [Token.Encodable, kind, text] using encodable
      obtain ⟨code, denoted⟩ := sequenceForm.exists_sequenceCode? nonempty named complete
      have coded := sequenceForm.escapeCode_iff.mpr denoted
      obtain ⟨symbol, rfl, spells⟩ := spells_codePoint (coded.isValidChar surrogate)
      obtain ⟨more, starts⟩ := codePointForm_cons symbol.toNat
      rw [characterForm, denoted] at form
      refine ⟨_, Spelled.leaf
        (.character groups token kind sequence text good (not_isNumbered_iff.mpr numbered) symbol
          coded)
        (form.trans starts) (by decide) ?_ fun _ => rfl⟩
      rw [form]
      exact spells

/-- A test of one token spells the test. -/
theorem exists_spelled_test (groups : Nat) {token : Token}
    (test : token.kind = .anchor ∨ (token.kind = .escape ∧ IsBoundary token.text))
    (shaped : token.Shaped) : ∃ trees, Spelled .term groups [token] trees := by
  -- The tests of one token are the anchors and the two for a boundary.
  rcases test with kind | ⟨kind, boundary⟩
  · have shape := shaped.form
    rw [kind] at shape
    -- An anchor is written as it stands.
    have form : tokenForm groups token = token.text := by rw [tokenForm, kind]
    rcases shape.of_anchor with text | text
    · refine ⟨_, Spelled.test (.textStart groups token kind text) (form.trans text) (by decide) ?_⟩
      rw [form, text]
      exact Spells.one fun _ _ _ => rfl
    · refine ⟨_, Spelled.test (.textEnd groups token kind text) (form.trans text) (by decide) ?_⟩
      rw [form, text]
      exact Spells.one fun _ _ _ => rfl
  · -- The two tests for a boundary differ in their letters only.
    have known : ∃ wanted : Bool, token.text = ['\\', if wanted then 'b' else 'B'] := by
      rcases boundary with text | text
      · exact ⟨true, text⟩
      · exact ⟨false, text⟩
    obtain ⟨wanted, text⟩ := known
    have form : tokenForm groups token =
        if wanted then wordBoundaryForm else notWordBoundaryForm := by
      rw [tokenForm, kind, text]
      cases wanted <;> rfl
    -- Both forms begin with a parenthesis.
    have starts : ∃ more, (if wanted then wordBoundaryForm else notWordBoundaryForm) = '(' :: more := by
      cases wanted <;> exact ⟨_, rfl⟩
    obtain ⟨more, starts⟩ := starts
    refine ⟨_, Spelled.test (.boundary groups token kind wanted text) (form.trans starts)
      (by decide) ?_⟩
    rw [form]
    simpa [PatternTree.lexemes] using spells_boundary wanted

end RegexLens
