import RegexLens.Proofs.Host.HostSyntax
import RegexLens.Proofs.Host.TreeSpelling

/-! The host form of everything that the grammar of patterns derives is well formed. -/

namespace RegexLens

namespace HostSyntax

variable {groups middle after : Nat} {text other : Text}

/-- A term alone is a sequence. -/
theorem sequence_term (only : HostSyntax .term groups text after) :
    HostSyntax .sequence groups text after := by
  have whole := HostSyntax.cons groups after after text [] only (.nil after)
  rwa [List.append_nil] at whole

/-- Sequences that follow one another are one sequence. -/
theorem sequence_append (first : HostSyntax .sequence groups text middle)
    (second : HostSyntax .sequence middle other after) :
    HostSyntax .sequence groups (text ++ other) after := by
  -- Only the two rules for sequences are left, since the phrase is known.
  generalize phrase : Phrase.sequence = own at first
  induction first with
  | nil => exact second
  | cons _ _ _ term rest head _ _ ih =>
    rw [List.append_assoc]
    exact .cons _ _ _ term _ head (ih second phrase)
  | _ => contradiction

/-- An atom alone is a sequence. -/
theorem sequence_atom (only : HostSyntax .atom groups text after) :
    HostSyntax .sequence groups text after :=
  sequence_term (.once groups after text only)

/-- Of atoms that follow one another the last one can have a quantifier behind it. -/
theorem exists_last_atom {first : Text} {others : List Text}
    (each : ∀ text ∈ first :: others, HostSyntax .atom groups text groups) :
    ∃ front last, (first :: others).flatten = front ++ last ∧
      HostSyntax .sequence groups front groups ∧ HostSyntax .atom groups last groups := by
  -- The last atom is found behind those that stand in front of it.
  induction others generalizing first with
  | nil => exact ⟨[], first, by simp, .nil groups, each first (by simp)⟩
  | cons next rest ih =>
    obtain ⟨front, last, cut, sequence, atom⟩ := ih fun text member =>
      each text (List.mem_cons_of_mem _ member)
    refine ⟨first ++ front, last, ?_, (sequence_atom (each first (by simp))).sequence_append sequence,
      atom⟩
    rw [List.flatten_cons, cut, List.append_assoc]

/-- A character is an atom, quoted or not. -/
theorem ofChar (groups : Nat) (symbol : Char) :
    HostSyntax .atom groups (if isHostOperator symbol then ['\\', symbol] else [symbol]) groups :=
  .character groups _ _ (.ofChar isHostOperator_iff symbol)

/-- A digit is an atom as it stands. -/
theorem ofDigit (groups : Nat) {digit : Char} (numeral : digit.isDigit = true) :
    HostSyntax .atom groups [digit] groups := by
  refine .character groups _ _ (.plain digit fun operator => ?_)
  -- No operator is a digit.
  have none : hostOperators.all (fun symbol => !symbol.isDigit) = true := by decide
  have other := List.all_eq_true.mp none digit operator
  simp [numeral] at other

/-- Two tests of a word character on each side of a bar are an atom. -/
theorem ofTests (groups : Nat) {first second third fourth : Text} (one : first ∈ lookOpenings)
    (two : second ∈ lookOpenings) (three : third ∈ lookOpenings) (four : fourth ∈ lookOpenings) :
    HostSyntax .atom groups (Lexeme.testsForm first second third fourth) groups := by
  -- Every one of the tests looks for a word character.
  have word : HostSyntax .alternatives groups "[[:word:]]".toList groups :=
    .last groups groups _ (sequence_atom (.set groups _
      ⟨false, ["[:word:]".toList], by simp, by simpa using HostMember.family _ _ .word, rfl⟩))
  have test {opening : Text} (known : opening ∈ lookOpenings) :
      HostSyntax .sequence groups (opening ++ "[[:word:]])".toList) groups := by
    have look := sequence_term (.look groups groups opening _ known word)
    rwa [List.append_assoc] at look
  have both := HostSyntax.more groups groups groups _ _ ((test one).sequence_append (test two))
    (.last groups groups _ ((test three).sequence_append (test four)))
  have whole := HostSyntax.group groups groups _ both
  -- Only the way in which the pieces are put together differs.
  unfold Lexeme.testsForm
  generalize "[[:word:]])".toList = word at whole ⊢
  generalize "(?:".toList = opening at whole ⊢
  simpa using whole

end HostSyntax

open HostSyntax

/-- What the host form of a phrase is: well-formed text, in which a quantifier finds an atom at the
end when the phrase is one. -/
def Phrase.IsWritten (phrase : Phrase) (tokens : List Token) : Prop :=
  match phrase with
  | .atom => ∀ groups, ∃ front last, tokensForm groups tokens = front ++ last ∧
      HostSyntax .sequence groups front groups ∧
      HostSyntax .atom groups last (groups + capturesIn tokens)
  | .term | .sequence => ∀ groups,
      HostSyntax .sequence groups (tokensForm groups tokens) (groups + capturesIn tokens)
  | .alternatives => ∀ groups,
      HostSyntax .alternatives groups (tokensForm groups tokens) (groups + capturesIn tokens)
  -- The outermost level is made of alternatives like any other.
  | .branches | .pattern => True

/-- A single token that opens no group is written as an atom, perhaps with others in front of it. -/
theorem isWritten_token {token : Token} (other : token.kind ≠ .groupOpen)
    (written : ∀ groups, ∃ first others, tokenForm groups token = (first :: others).flatten ∧
      ∀ text ∈ first :: others, HostSyntax .atom groups text groups) :
    Phrase.IsWritten .atom [token] := by
  intro groups
  -- The form of the token is several atoms, the last of which is the one to repeat.
  obtain ⟨first, others, form, each⟩ := written groups
  obtain ⟨front, last, cut, sequence, atom⟩ := exists_last_atom each
  refine ⟨front, last, ?_, sequence, ?_⟩
  · rw [tokensForm_singleton, form, cut]
  · simpa [Token.captures_of_kind other] using atom

/-- A single token that is a test is written as a sequence. -/
theorem isWritten_test {token : Token} (other : token.kind ≠ .groupOpen)
    (written : ∀ groups, HostSyntax .sequence groups (tokenForm groups token) groups) :
    Phrase.IsWritten .term [token] := by
  -- A test opens no group, so the number of groups stays.
  intro groups
  rw [tokensForm_singleton]
  simpa [Token.captures_of_kind other] using written groups

/-- The wildcard is written as a class. -/
theorem hostClass_dotForm : HostClass dotForm := by
  -- The class is a complement with four members, each a single character.
  refine ⟨true, ["\\n".toList, "\\r".toList, "\\x\x7b2028\x7d".toList, "\\x\x7b2029\x7d".toList],
    by simp, ?_, rfl⟩
  have code (digits : Text) (nonempty : digits ≠ [])
      (hexadecimal : ∀ digit ∈ digits, isHexDigit digit = true)
      (bounded : valueIn 16 digits ≤ 0x10FFFF) :=
    HostMember.single _ _ (.code digits nonempty hexadecimal bounded)
  simp only [List.forall_mem_cons, List.not_mem_nil, false_implies, implies_true, and_true]
  exact ⟨.single _ _ (.named 'n' '\n' (by decide)), .single _ _ (.named 'r' '\r' (by decide)),
    code "2028".toList (by decide) (List.all_eq_true.mp (by decide)) (by decide),
    code "2029".toList (by decide) (List.all_eq_true.mp (by decide)) (by decide)⟩

/-- A number is written as a reference or as a character, and then the digits that it leaves over. -/
theorem exists_atoms_number (groups : Nat) {digits : Text} (numbered : startsNumbered digits = true)
    (numeric : ∀ digit ∈ digits, digit.isDigit = true) :
    ∃ first others, numberedForm groups digits = (first :: others).flatten ∧
      ∀ text ∈ first :: others, HostSyntax .atom groups text groups := by
  -- The digits left over are atoms, one for each digit.
  have behind (length : Nat) : ∀ text ∈ (digits.drop length).map (fun digit => [digit]),
      HostSyntax .atom groups text groups := by
    simp only [List.forall_mem_map]
    exact fun digit member => ofDigit groups (numeric digit (List.mem_of_mem_drop member))
  have single (length : Nat) : ((digits.drop length).map fun digit => [digit]).flatten =
      digits.drop length := by
    rw [← List.flatMap_def, List.flatMap_singleton']
  -- The number is read as a reference or as a code.
  have read : NumberReads (largestGroup groups) digits (.resolve groups digits) :=
    numberReads_resolve numbered numeric
  generalize NumberedEscape.resolve groups digits = escape at read
  cases escape with
  | reference group length =>
    -- The group was opened before, since the number is not larger than that of the last one.
    refine ⟨_, (digits.drop length).map fun digit => [digit], ?_,
      List.forall_mem_cons.mpr ⟨.reference groups group (read.opened numbered), behind length⟩⟩
    rw [List.flatten_cons, single, numberedForm_reference numbered read]
    simp
  -- The code is within the range of characters, or the host could not read it.
  | code value length =>
    have bounded := read.spellsCode.escapeCode.code_le
    refine ⟨_, (digits.drop length).map fun digit => [digit], ?_,
      List.forall_mem_cons.mpr ⟨.character groups _ value (.ofCode _ bounded), behind length⟩⟩
    rw [List.flatten_cons, single, numberedForm_code numbered read]

/-- An escape that tests for no boundary is written as a character, a class or a reference. -/
theorem exists_atoms_escape (groups : Nat) {sequence : Text} (good : GoodEscape ('\\' :: sequence))
    (digits : startsNumbered sequence = true → ∀ digit ∈ sequence, digit.isDigit = true)
    (other : startsNumbered sequence = false → SequenceForm sequence) :
    ∃ first others, escapeForm groups sequence = (first :: others).flatten ∧
      ∀ text ∈ first :: others, HostSyntax .atom groups text groups := by
  obtain ⟨nonempty, complete, notLower, notUpper⟩ := goodEscape_cons.mp good
  rw [escapeForm_eq groups notLower notUpper]
  -- A number can leave digits over, and the others are written as one atom.
  cases numbered : startsNumbered sequence with
  | true => exact exists_atoms_number groups numbered (digits numbered)
  | false =>
    rw [if_neg (by simp)]
    cases named : isMetaclass sequence with
    | true =>
      -- A shorthand class stands in brackets of its own.
      obtain ⟨item, written, _⟩ := metaclassForm_syntax named
      refine ⟨'[' :: metaclassForm sequence ++ [']'], [], by simp, ?_⟩
      exact List.forall_mem_singleton.mpr (.set groups _ ⟨false, [metaclassForm sequence], by simp,
        by simpa using HostMember.family _ item written, by simp⟩)
    -- A character is written by its code, which is within the range of characters.
    | false =>
      have form := other numbered
      obtain ⟨code, denoted⟩ := form.exists_sequenceCode? nonempty named complete
      refine ⟨codePointForm code, [], by simp [characterForm, denoted], ?_⟩
      exact List.forall_mem_singleton.mpr
        (.character groups _ code (.ofCode _ (form.escapeCode_iff.mpr denoted).code_le))

/-- The contents of a group and its opening capture all that the group captures. -/
theorem capturesIn_group {opening closing : Token} (inner : List Token)
    (closes : closing.kind = .groupClose) :
    capturesIn (opening :: (inner ++ [closing])) = capturesIn [opening] + capturesIn inner := by
  have silent : closing.captures = false := Token.captures_of_kind (by simp [closes])
  simp [silent, Nat.add_comm]

/-- Whatever the grammar derives is written as a well-formed text. -/
theorem Derives.isWritten {phrase : Phrase} {tokens : List Token} (derives : Derives phrase tokens)
    (shaped : ∀ token ∈ tokens, token.Shaped) : phrase.IsWritten tokens := by
  -- Each rule of the grammar has its counterpart for the host.
  induction derives with
  -- A literal is written character by character, each an atom of its own.
  | literal token kind =>
    refine isWritten_token (by simp [kind]) fun groups => ?_
    obtain ⟨first, rest, text⟩ := List.exists_cons_of_ne_nil (shaped token (by simp)).nonempty
    -- An operator of the host is written with a backslash.
    let quoted (symbol : Char) : Text := if isHostOperator symbol then ['\\', symbol] else [symbol]
    refine ⟨quoted first, rest.map quoted, ?_, ?_⟩
    · rw [tokenForm, kind, text, quoteWhere, List.flatMap_def, List.map_cons]
    · rw [← List.map_cons, List.forall_mem_map]
      exact fun symbol _ => ofChar groups symbol
  -- The dot is written as a class.
  | dot token kind =>
    refine isWritten_token (by simp [kind]) fun groups => ⟨dotForm, [], ?_, ?_⟩
    · simp [tokenForm, kind]
    · exact List.forall_mem_singleton.mpr (.set groups _ hostClass_dotForm)
  -- A class stands for one atom, whatever it holds.
  | characterClass token kind good =>
    have shape := (shaped token (by simp)).form
    rw [kind] at shape
    obtain ⟨⟨tail, text⟩, _⟩ := shape.of_characterClass
    refine isWritten_token (by simp [kind]) fun groups => ⟨classForm token.text, [], ?_, ?_⟩
    · simp [tokenForm, kind]
    · rw [text] at good ⊢
      exact List.forall_mem_singleton.mpr (.set groups _ (classForm_hostClass good))
  -- An escape is written as what it denotes, perhaps with digits left over.
  | escape token kind good =>
    have shape := (shaped token (by simp)).form
    rw [kind] at shape
    obtain ⟨sequence, text, digits, other⟩ := shape.escape_sequence
    rw [text] at good
    refine isWritten_token (by simp [kind]) fun groups => ?_
    have form : tokenForm groups token = escapeForm groups sequence := by simp [tokenForm, kind, text]
    rw [form]
    exact exists_atoms_escape groups good digits other
  -- The groups inside are counted from those in front, and a captured one counts itself.
  | group opening closing inner opens type closes body ih =>
    have written := ih fun token member => shaped token (by simp [member])
    intro groups
    refine ⟨[], _, (List.nil_append _).symm, .nil groups, ?_⟩
    have inside := written (groups + capturesIn [opening])
    rw [Nat.add_assoc, ← capturesIn_group inner closes] at inside
    rw [tokensForm_group groups opens closes (shaped closing (by simp))]
    rcases type with text | text
    · have one : capturesIn [opening] = 1 := by simp [Token.captures, opens, text]
      rw [one] at inside ⊢
      rw [text]
      exact .capture groups _ _ inside
    · have none : capturesIn [opening] = 0 := by simp [Token.captures, text]
      rw [none] at inside ⊢
      rw [text]
      exact .group groups _ _ inside
  -- An anchor is written as it stands.
  | anchor token kind =>
    have shape := (shaped token (by simp)).form
    rw [kind] at shape
    refine isWritten_test (by simp [kind]) fun groups => ?_
    have form : tokenForm groups token = token.text := by rw [tokenForm, kind]
    rw [form]
    exact sequence_term (.anchor groups _ shape.of_anchor)
  -- The tests for a boundary are written with tests of their neighbours.
  | boundary token kind test =>
    refine isWritten_test (by simp [kind]) fun groups => ?_
    rcases test with text | text
    · have form : tokenForm groups token = wordBoundaryForm := by
        rw [tokenForm, kind, text]
        rfl
      rw [form, Lexeme.wordBoundaryForm_eq]
      exact sequence_atom (ofTests groups (by decide) (by decide) (by decide) (by decide))
    · have form : tokenForm groups token = notWordBoundaryForm := by
        rw [tokenForm, kind, text]
        rfl
      rw [form, Lexeme.notWordBoundaryForm_eq]
      exact sequence_atom (ofTests groups (by decide) (by decide) (by decide) (by decide))
  | lookahead opening closing inner opens type closes body ih =>
    have written := ih fun token member => shaped token (by simp [member])
    intro groups
    have inside := written (groups + capturesIn [opening])
    rw [Nat.add_assoc, ← capturesIn_group inner closes] at inside
    rw [tokensForm_group groups opens closes (shaped closing (by simp))]
    -- A look-ahead captures nothing itself.
    have none : capturesIn [opening] = 0 := by
      rcases type with text | text <;> simp [Token.captures, text]
    have known : opening.text ∈ lookOpenings := by
      rcases type with text | text <;> simp [lookOpenings, text]
    rw [none] at inside ⊢
    exact sequence_term (.look groups _ _ _ known inside)
  -- An atom without a quantifier is the last one of its sequence.
  | once atom body ih =>
    intro groups
    obtain ⟨front, last, form, sequence, only⟩ := ih shaped groups
    rw [form]
    exact sequence.sequence_append (sequence_atom only)
  | repeated atom quantifier body kind good ih =>
    intro groups
    obtain ⟨front, last, form, sequence, only⟩ :=
      ih (fun token member => shaped token (by simp [member])) groups
    have silent : quantifier.captures = false := Token.captures_of_kind (by simp [kind])
    -- The quantifier stands behind the last atom.
    rw [tokensForm_quantifier groups atom kind, form, List.append_assoc]
    simpa [silent] using sequence.sequence_append
      (sequence_term (.repeated _ _ last quantifier.text only good))
  | nil => exact fun groups => .nil groups
  -- The terms follow one another, each with the groups counted in front of it.
  | cons term rest first others ihFirst ihOthers =>
    intro groups
    have front := ihFirst (fun token member => shaped token (by simp [member])) groups
    have behind := ihOthers (fun token member => shaped token (by simp [member]))
      (groups + capturesIn term)
    rw [tokensForm_append, capturesIn_append, ← Nat.add_assoc]
    exact front.sequence_append behind
  | last sequence only ih => exact fun groups => .last groups _ _ (ih shaped groups)
  -- The bar stands between the alternatives, and it opens no group.
  | more sequence rest bar first kind others ihFirst ihOthers =>
    intro groups
    have front := ihFirst (fun token member => shaped token (by simp [member])) groups
    have behind := ihOthers (fun token member => shaped token (by simp [member]))
      (groups + capturesIn sequence)
    have silent : bar.captures = false := Token.captures_of_kind (by simp [kind])
    have whole := HostSyntax.more groups _ _ _ _ front behind
    rw [tokensForm_bar groups sequence rest kind (shaped bar (by simp))]
    simpa [silent, Nat.add_assoc] using whole
  | branch | branches | empty | closed | trailing => trivial

/-- The host form of a pattern that the grammar derives is well formed. -/
theorem hostForm_wellFormed {pattern : Text} (derives : Derives .pattern (scan pattern)) :
    HostSyntax .alternatives 0 (hostForm pattern) (capturesIn (scan pattern)) := by
  have written := derives.alternatives_of_pattern.isWritten (scan_shaped pattern) 0
  rwa [Nat.zero_add] at written

end RegexLens
