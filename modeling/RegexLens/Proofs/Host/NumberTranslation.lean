import RegexLens.Proofs.Host.TokenSpelling
import RegexLens.Proofs.Pattern.Progress
import RegexLens.Proofs.Pattern.References

/-! A number behind a backslash is styled and translated by one and the same reading of it. -/

namespace RegexLens

/-- What the host is given for the digits that a reading uses: a reference in a group of its own, or
a code in hexadecimal digits. -/
def NumberedEscape.hostForm : NumberedEscape → Text
  | .reference group _ => ['(', '?', ':', '\\'] ++ Nat.toDigits 10 group ++ [')']
  | .code value _ => ['\\', 'x', '\x7b'] ++ (Nat.toDigits 16 value).map Char.toUpper ++ ['\x7d']

/-- The groups that the numbers behind backslashes name, given the groups opened before them. -/
def groupsNamed (groups : Nat) : List Token → List Nat
  | [] => []
  | token :: rest =>
    -- A number of which no front part names a group is stripped down to zero.
    let named :=
      if token.kind = .escape ∧ IsNumbered (token.text.drop 1) then
        [groupNamed (largestGroup groups) (valueIn 10 (token.text.drop 1))].filter (0 < ·)
      else []
    named ++ groupsNamed (groups + capturesIn [token]) rest

/-- The groups that numbers name are the groups that the tokens refer to. -/
theorem groupsNamed_eq {tokens : List Token} (shaped : ∀ token ∈ tokens, token.Shaped)
    (groups : Nat) : groupsNamed groups tokens = referencesIn groups tokens := by
  -- Both lists count the groups of the tokens in front, so the number is general.
  induction tokens generalizing groups with
  | nil => rfl
  | cons token rest ih =>
    have later := ih (fun other member => shaped other (by simp [member]))
    simp only [groupsNamed, referencesIn, later, Token.references, isNumbered_iff]
    split
    · -- The token is a number, which is read in one way only.
      rename_i number
      obtain ⟨kind, numbered⟩ := number
      have form := (shaped token (by simp)).form
      rw [kind] at form
      obtain ⟨digits, text, decimal, _⟩ := form.escape_sequence
      rw [text, List.drop_succ_cons, List.drop_zero] at numbered ⊢
      have read : NumberReads (largestGroup groups) digits (.resolve groups digits) :=
        numberReads_resolve numbered (decimal numbered)
      rw [read.groupNamed_eq]
      -- A group that is named has a positive number, and zero stands for no group.
      generalize NumberedEscape.resolve groups digits = escape at read
      cases escape with
      | reference group length =>
        have positive := (read.opened numbered).1
        simp [NumberedEscape.group?, positive]
      | code => simp [NumberedEscape.group?]
    · rfl

/-- Tokens open no more groups than they have bytes. -/
theorem capturesIn_le_byteSize (tokens : List Token) :
    capturesIn tokens ≤ byteSize (tokens.flatMap Token.text) := by
  -- Each token adds one group at most, and it takes up a byte at least.
  induction tokens with
  | nil => exact Nat.le_refl 0
  | cons token rest ih =>
    rw [capturesIn_cons, List.flatMap_cons, byteSize_append, Nat.add_comm]
    refine Nat.add_le_add ?_ ih
    -- A token that captures is a parenthesis of one byte.
    split
    · rename_i captures
      simp only [Token.captures, Bool.and_eq_true, decide_eq_true_eq] at captures
      rw [captures.2]
      decide
    · exact Nat.zero_le _

/-- In a pattern that fits into memory every group can be referred to by its number. -/
theorem largestGroup_of_cut {pattern : Text} {before after : List Token}
    (cut : scan pattern = before ++ after) (small : byteSize pattern < 0xFFFFFFFFFFFFFFFF) :
    largestGroup (capturesIn before) = capturesIn before := by
  -- The groups in front of the cut are fewer than the bytes of the pattern.
  have texts := scan_text pattern
  rw [cut, List.flatMap_append] at texts
  have size := congrArg byteSize texts
  rw [byteSize_append] at size
  have few := capturesIn_le_byteSize before
  exact largestGroup_eq (by omega)

/-- A number is spelled for the host by its reading, with the digits that are left over behind. -/
theorem tokenForm_number {groups : Nat} {token : Token} {digits : Text} {escape : NumberedEscape}
    (kind : token.kind = .escape) (text : token.text = '\\' :: digits)
    (numbered : startsNumbered digits = true)
    (read : NumberReads (largestGroup groups) digits escape) :
    tokenForm groups token = escape.hostForm ++ digits.drop escape.length := by
  -- A number is none of the escapes that are spelled in another way.
  obtain ⟨_, notLower, notUpper⟩ := startsNumbered_excludes numbered
  rw [tokenForm, kind, text]
  simp only [List.drop_succ_cons, List.drop_zero, escapeForm_eq groups notLower notUpper, numbered,
    if_true]
  -- It is spelled as a reference or as a code.
  cases escape with
  | reference group length => exact numberedForm_reference numbered read
  | code value length => exact numberedForm_code numbered read

/-- A number is shown as a special span for the digits in use, with the others behind as text. -/
theorem classify_shows_number {pattern : Text} {before after : List Token} {token : Token}
    {digits : Text} (cut : scan pattern = before ++ token :: after) (kind : token.kind = .escape)
    (text : token.text = '\\' :: digits) (numbered : startsNumbered digits = true) {used : Nat}
    (read : (NumberedEscape.resolve (capturesIn before) digits).length = used) :
    ∃ index, (classify pattern).markup.spanAt? index 0 =
        some (token.start, .special, .text ('\\' :: digits.take used) .nil) ∧
      (digits.drop used ≠ [] → ∃ more, (classify pattern).markup.textAt? (index + 1) 0 =
        some (token.start + byteSize ('\\' :: digits.take used), digits.drop used ++ more)) := by
  -- The reading of a number depends on the groups that were opened in front of it.
  have captures : (before.foldl Classifier.read .initial).captures = capturesIn before := by
    rw [(Classifier.run_references _ before).1]
    exact Nat.zero_add _
  have start := start_of_cut cut
  rw [← (accounted_of_cut cut).shown.text] at start
  -- The token is shown behind what was shown before.
  have shown : ((before.foldl Classifier.read .initial).read token).markup =
      ((before.foldl Classifier.read .initial).markup.pushSpan .special
        ('\\' :: digits.take used)).pushText (digits.drop used) := by
    -- A number has a first digit.
    obtain ⟨first, rest, rfl⟩ : ∃ first rest, digits = first :: rest := by
      cases digits with
      | nil => contradiction
      | cons first rest => exact ⟨first, rest, rfl⟩
    simp only [Classifier.read, kind, Classifier.readEscape, text, List.drop_succ_cons,
      List.drop_zero, numbered, if_true, Classifier.readNumberedEscape_eq, captures, read]
    rfl
  -- The position of the span is the number of nodes in front of the token.
  refine ⟨(before.foldl Classifier.read .initial).markup.length, ?_, ?_⟩
  · -- The span is there once the token is read, and the token opens no group.
    apply classify_shows cut (by simp [Token.opens, kind])
    rw [shown, start, ← Nat.zero_add (byteSize _)]
    exact Markup.spanAt?_pushText (Markup.spanAt?_length _ _ _ _) _
  · -- The digits left over are pushed as text behind the span, and more can be added to them.
    intro remaining
    rw [List.append_cons] at cut
    apply classify_textAt? cut
    rw [List.foldl_append, List.foldl_cons, List.foldl_nil, shown, start, ← byteSize_append]
    have found := Markup.textAt?_pushText_pushNested (before.foldl Classifier.read .initial).markup
      .special (.text ('\\' :: digits.take used) .nil) 0 remaining
    rw [Nat.zero_add] at found
    simpa [Markup.pushSpan, Markup.plainText] using found

/-- Every number behind a backslash is read once and for all: as a reference to the longest group
number in front, or else as a code. The styles and the translation both follow that reading, and
the references of a pattern are those that are read. A group number that outgrows 64 bits is none,
which makes no difference to a pattern that fits into memory. -/
theorem classify_reads_numbers (pattern : Text) :
    (classify pattern).backreferences = groupsNamed 0 (scan pattern) ∧
      ∀ (before after : List Token) (token : Token) (digits : Text),
        scan pattern = before ++ token :: after → token.kind = .escape →
        token.text = '\\' :: digits → IsNumbered digits →
        let groups := largestGroup (capturesIn before)
        (byteSize pattern < 0xFFFFFFFFFFFFFFFF → groups = capturesIn before) ∧
          ∃ escape, NumberReads groups digits escape ∧
            (∀ other, NumberReads groups digits other → other = escape) ∧
            groupNamed groups (valueIn 10 digits) = escape.group?.getD 0 ∧
            (∀ group, escape.group? = some group → 1 ≤ group ∧ group ≤ capturesIn before ∧
              Nat.toDigits 10 group = digits.take escape.length) ∧
            (∃ index, (classify pattern).markup.spanAt? index 0 =
                some (token.start, .special, .text ('\\' :: digits.take escape.length) .nil) ∧
              (digits.drop escape.length ≠ [] →
                ∃ more, (classify pattern).markup.textAt? (index + 1) 0 =
                  some (token.start + byteSize ('\\' :: digits.take escape.length),
                    digits.drop escape.length ++ more))) ∧
            hostForm pattern = tokensForm 0 before ++
              (escape.hostForm ++ digits.drop escape.length) ++
              tokensForm (capturesIn before) after := by
  constructor
  · rw [classify_backreferences, groupsNamed_eq (scan_shaped pattern)]
  · -- The digits of the token are decimal, so the number is read as its specification says.
    intro before after token digits cut kind text numbered groups
    rw [isNumbered_iff] at numbered
    have form := (shaped_of_cut cut).form
    rw [kind] at form
    obtain ⟨sequence, sameText, decimal, _⟩ := form.escape_sequence
    obtain rfl : digits = sequence := by simpa [text] using sameText
    have read : NumberReads groups digits (.resolve (capturesIn before) digits) :=
      numberReads_resolve numbered (decimal numbered)
    refine ⟨largestGroup_of_cut cut, _, read, fun other again => again.unique read,
      read.groupNamed_eq, ?_, classify_shows_number cut kind text numbered rfl, ?_⟩
    · -- A group that is named was opened before, and its number is spelled by the digits in use.
      intro group named
      obtain ⟨least, most, spelled⟩ := read.group_spelled numbered named
      exact ⟨least, Nat.le_trans most (largestGroup_le _), spelled⟩
    · -- The escape opens no group, so the tokens behind it are translated as before.
      rw [hostForm, cut, tokensForm_append, Nat.zero_add, List.append_assoc, tokensForm,
        tokenForm_number kind text numbered read]
      simp [kind]

end RegexLens
