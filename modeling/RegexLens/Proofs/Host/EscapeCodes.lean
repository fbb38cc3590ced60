import RegexLens.Proofs.Host.HostSyntax
import RegexLens.Proofs.Host.NumberTranslation

/-! Every sequence behind a backslash has the code that it is meant to denote, or none by intent. -/

namespace RegexLens

/-- An item has the code that it is meant to denote, and lacks one by intent only. -/
structure ClassItem.ExactCode (item : ClassItem) : Prop where
  /-- The code is the one that is meant. -/
  meant : ∀ code?, ItemCode item code? ↔ item.code? = code?
  /-- Only shorthand classes, incomplete escapes and a backslash alone have none. -/
  absent : item.code? = none ↔ item.IsShorthand ∨
    item ∈ [.escape ['c'], .escape ['u'], .escape ['x']] ∨ item = .escape []
  /-- The code is not beyond the last character. -/
  bounded : ∀ code, item.code? = some code → code ≤ 0x10FFFF

/-- An escape outside classes that is spelled for the host by a character code: it is no test, no
shorthand class, and no number that refers to a group. -/
structure SpelledByCode (groups : Nat) (sequence : Text) : Prop where
  notLower : sequence ≠ ['b']
  notUpper : sequence ≠ ['B']
  character : ¬ IsShorthand sequence
  unreferring : ∀ group length,
    ¬ NumberReads (largestGroup groups) sequence (.reference group length)

/-- The part of a sequence that is spelled by a code: some digits of a number, or else all of it. -/
inductive CodedPart (groups : Nat) (sequence : Text) : Text → Prop
  /-- Of a number it is the digits that the code is read from. -/
  | front (numbered : IsNumbered sequence) (value length : Nat)
      (read : NumberReads (largestGroup groups) sequence (.code value length)) :
      CodedPart groups sequence (sequence.take length)
  /-- Of any other sequence it is everything. -/
  | whole (unnumbered : ¬ IsNumbered sequence) : CodedPart groups sequence sequence

/-- A sequence has one part that is spelled by a code. -/
theorem CodedPart.unique {groups : Nat} {sequence part other : Text}
    (one : CodedPart groups sequence part) (again : CodedPart groups sequence other) :
    other = part := by
  -- A number is read in one way, so that the same digits are used.
  cases one with
  | front numbered value length read =>
    cases again with
    | front _ _ _ others =>
      obtain ⟨-, rfl⟩ := NumberedEscape.code.inj (read.unique others)
      rfl
    | whole unnumbered => contradiction
  | whole unnumbered =>
    cases again with
    | front => contradiction
    | whole => rfl

/-- The escape of a sequence of a known form is coded exactly. -/
theorem SequenceForm.exactCode {sequence : Text} (form : SequenceForm sequence) :
    (ClassItem.escape sequence).ExactCode where
  meant := fun _ => form.itemCode_iff
  absent := by
    -- The table and the search agree on which sequences have no code.
    have codeless : sequenceCode? sequence = none ↔
        sequence = [] ∨ isMetaclass sequence = true ∨ isIncomplete sequence = true :=
      ⟨fun none => (form.escapeCode_iff.mpr none).codeless, sequenceCode?_eq_none⟩
    show sequenceCode? sequence = none ↔ _
    rw [codeless]
    -- The three ways to be without a code are listed in another order.
    simp only [ClassItem.isShorthand_iff, ClassItem.isMetaclass, isIncomplete,
      List.contains_iff_mem, List.mem_cons, List.not_mem_nil, or_false, ClassItem.escape.injEq]
    exact or_comm.trans or_assoc
  bounded := fun _ denoted => (form.escapeCode_iff.mpr denoted).code_le

/-- Each item of class contents is coded exactly. -/
theorem ClassItem.Shaped.exactCode {item : ClassItem} (shaped : item.Shaped) : item.ExactCode := by
  have meant (code? : Option Nat) : ItemCode item code? ↔ item.code? = code? := shaped.itemCode_iff
  obtain ⟨symbol, tail, rfl⟩ := shaped
  -- The cases are those of the first item of a class: a hyphen, an escape, or a run.
  fun_cases ClassItem.first symbol tail with
  | case1 =>
    refine ⟨fun _ => meant _, by simp [code?, IsShorthand], ?_⟩
    intro code found
    obtain rfl := Option.some.inj found
    decide
  | case2 =>
    -- What is taken behind a backslash is a sequence of a known form.
    exact (classEscaped_take tail).sequenceForm.exactCode
  | case3 =>
    rename_i notHyphen notBackslash
    rw [ClassItem.first.eq_3 _ _ notHyphen notBackslash] at meant
    refine ⟨meant, by simp [code?, IsShorthand], ?_⟩
    intro code found
    obtain rfl := Option.some.inj found
    -- The code of a run is that of a character.
    rcases symbol.valid with low | high
    · exact Nat.le_of_lt (Nat.lt_trans low (by decide))
    · exact Nat.le_of_lt_succ high.2

/-- A sequence that is spelled by a code has a part that spells it. -/
theorem SpelledByCode.exists_codedPart {groups : Nat} {sequence : Text}
    (spelled : SpelledByCode groups sequence) (form : TokenForm .escape ('\\' :: sequence)) :
    ∃ part, CodedPart groups sequence part := by
  by_cases numbered : IsNumbered sequence
  · -- A number refers to a group, or its digits are read as a code.
    have found := isNumbered_iff.mp numbered
    obtain ⟨other, same, decimal, _⟩ := form.escape_sequence
    obtain rfl : sequence = other := (List.cons.inj same).2
    have read : NumberReads (largestGroup groups) sequence (.resolve groups sequence) :=
      numberReads_resolve found (decimal found)
    generalize NumberedEscape.resolve groups sequence = escape at read
    cases escape with
    | reference group length => exact absurd read (spelled.unreferring group length)
    | code value length => exact ⟨_, .front numbered value length read⟩
  · exact ⟨_, .whole numbered⟩

/-- The part that is spelled by a code is coded exactly, and the rest is kept. -/
theorem tokenForm_coded {groups : Nat} {token : Token} {sequence part : Text}
    (shaped : token.Shaped) (kind : token.kind = .escape) (text : token.text = '\\' :: sequence)
    (spelled : SpelledByCode groups sequence) (coded : CodedPart groups sequence part) :
    (∃ rest, sequence = part ++ rest ∧ tokenForm groups token = characterForm part ++ rest) ∧
      (ClassItem.escape part).ExactCode := by
  cases coded with
  | front numbered value length read =>
    rw [isNumbered_iff] at numbered
    have denoted := read.spellsCode.escapeCode
    refine ⟨⟨_, (List.take_append_drop _ _).symm, ?_⟩, denoted.sequenceForm.exactCode⟩
    rw [tokenForm_number kind text numbered read]
    -- The digits in use have the code, and the host is given its hexadecimal digits.
    simp only [NumberedEscape.length, characterForm, denoted.eq_sequenceCode?]
    rfl
  | whole unnumbered =>
    rw [not_isNumbered_iff] at unnumbered
    have character := not_isShorthand_iff.mp spelled.character
    have form := shaped.form
    rw [kind, text] at form
    -- What stands behind the backslash is the sequence, so that the forms of escapes apply.
    obtain ⟨other, same, _, sequenceForm⟩ := form.escape_sequence
    obtain rfl : sequence = other := (List.cons.inj same).2
    refine ⟨⟨[], (List.append_nil _).symm, ?_⟩, (sequenceForm unnumbered).exactCode⟩
    rw [tokenForm, kind, text]
    simp [escapeForm_eq groups spelled.notLower spelled.notUpper, unnumbered, character]

/--
Items of a class cover it, and they and the escapes that are spelled by a code are coded exactly.

A code is missing only where none is meant, so no digits fail to be read as a number.
-/
theorem escapes_coded_exactly :
    (∀ contents, (ClassItem.all contents).flatMap ClassItem.text = contents ∧
      ∀ item ∈ ClassItem.all contents, item.text ≠ [] ∧ item.ExactCode ∧
        ∀ sequence, item = .escape sequence → ¬ IsShorthand sequence →
          item.hostForm = characterForm sequence) ∧
    ∀ pattern before token after sequence, scan pattern = before ++ token :: after →
      token.kind = .escape → token.text = '\\' :: sequence →
      SpelledByCode (capturesIn before) sequence →
      ∃ part, CodedPart (capturesIn before) sequence part ∧
        (∀ other, CodedPart (capturesIn before) sequence other → other = part) ∧
        (∃ rest, sequence = part ++ rest ∧
          tokenForm (capturesIn before) token = characterForm part ++ rest) ∧
        (ClassItem.escape part).ExactCode := by
  constructor
  · -- Inside a class every item is an item of a known form.
    intro contents
    refine ⟨ClassItem.all_text contents, fun item member => ⟨item.text_ne_nil, ?_, ?_⟩⟩
    · exact (ClassItem.all_shaped contents item member).exactCode
    · rintro sequence rfl character
      rw [not_isShorthand_iff] at character
      simp [ClassItem.hostForm, character]
  · -- Outside of a class the escape is a token of the pattern.
    intro pattern before token after sequence cut kind text spelled
    have shaped := shaped_of_cut cut
    have form := shaped.form
    rw [kind, text] at form
    obtain ⟨part, coded⟩ := spelled.exists_codedPart form
    exact ⟨part, coded, fun _ again => coded.unique again,
      tokenForm_coded shaped kind text spelled coded⟩

/-- A number without a group is coded by its octal digits, and the digit behind them is kept. -/
theorem escapes_coded_exactly_number :
    scan ['\\', '1', '2', '8'] = [⟨.escape, 0, ['\\', '1', '2', '8']⟩] ∧
      SpelledByCode 0 ['1', '2', '8'] ∧
      tokenForm 0 ⟨.escape, 0, ['\\', '1', '2', '8']⟩ = characterForm ['1', '2'] ++ ['8'] ∧
      (ClassItem.escape ['1', '2']).ExactCode := by
  have scanned : scan ['\\', '1', '2', '8'] = [⟨.escape, 0, ['\\', '1', '2', '8']⟩] := by
    -- One step of the scanner takes the whole pattern.
    rw [scan, Scanner.tokens]
    show _ :: (⟨4, []⟩ : Scanner).tokens = _
    rw [Scanner.tokens]
    rfl
  -- Without a group the digits are read as an octal code.
  have read : NumberReads (largestGroup 0) ['1', '2', '8'] (.code 10 2) :=
    numberReads_resolve rfl (by simp)
  have spelled : SpelledByCode 0 ['1', '2', '8'] :=
    ⟨by decide, by decide, by decide, fun group length other => nomatch read.unique other⟩
  obtain ⟨part, _, only, ⟨rest, whole, written⟩, exact⟩ :=
    escapes_coded_exactly.2 _ [] _ [] _ scanned rfl rfl spelled
  obtain rfl : ['1', '2'] = part := only _ (.front (by decide) 10 2 read)
  obtain rfl : ['8'] = rest := @List.append_cancel_left _ ['1', '2'] _ _ whole
  exact ⟨scanned, spelled, written, exact⟩

end RegexLens
