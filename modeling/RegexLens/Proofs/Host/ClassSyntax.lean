import RegexLens.Host.Lexeme
import RegexLens.Proofs.Numeral
import RegexLens.Proofs.Text

/-! Bracket classes as the host writes them: a grammar without ambiguous operators, and its reading. -/

namespace RegexLens

/-- The characters that have a meaning of their own somewhere in a class. -/
def classOperators : Text :=
  ['\\', '[', ']', '^', '-', '&', '~']

/-- The ways to write one character in a class. -/
inductive CharacterSyntax : Text → Char → Prop
  -- A character without a meaning of its own stands for itself.
  | plain (symbol : Char) (ordinary : symbol ∉ classOperators) : CharacterSyntax [symbol] symbol
  | quoted (symbol : Char) (operator : symbol ∈ classOperators) :
      CharacterSyntax ['\\', symbol] symbol
  -- Two letters name characters, and any character can be given by its code.
  | named (letter symbol : Char) (known : (letter, symbol) ∈ [('n', '\n'), ('r', '\r')]) :
      CharacterSyntax ['\\', letter] symbol
  | code (digits : Text) (nonempty : digits ≠ [])
      (hexadecimal : ∀ digit ∈ digits, isHexDigit digit = true)
      (valid : (valueIn 16 digits).isValidChar) :
      CharacterSyntax (['\\', 'x', '{'] ++ digits ++ ['}']) (Char.ofNatAux (valueIn 16 digits) valid)

/-- The ways to write a family of characters in a class. -/
inductive FamilySyntax : Text → SetItem → Prop
  -- Brackets name the families of ASCII, and a letter names the white space.
  | digit : FamilySyntax "[:digit:]".toList (.family .digit false)
  | notDigit : FamilySyntax "[:^digit:]".toList (.family .digit true)
  | word : FamilySyntax "[:word:]".toList (.family .word false)
  | notWord : FamilySyntax "[:^word:]".toList (.family .word true)
  | space : FamilySyntax "\\s".toList (.family .space false)
  | notSpace : FamilySyntax "\\S".toList (.family .space true)

/-- The ways to write a member of a class. -/
inductive MemberSyntax : Text → SetItem → Prop
  | single (text : Text) (symbol : Char) (written : CharacterSyntax text symbol) :
      MemberSyntax text (.range symbol symbol)
  -- Only a hyphen between two characters in order is written without a backslash.
  | range (low high : Text) (least greatest : Char) (lowWritten : CharacterSyntax low least)
      (highWritten : CharacterSyntax high greatest) (ordered : least ≤ greatest) :
      MemberSyntax (low ++ '-' :: high) (.range least greatest)
  | family (text : Text) (item : SetItem) (written : FamilySyntax text item) :
      MemberSyntax text item

/-- The ways to write a class: brackets around at least one member, and a mark for a complement. -/
def ClassSyntax (text : Text) (set : CharSet) : Prop :=
  ∃ members : List (Text × SetItem), members ≠ [] ∧
    (∀ member ∈ members, MemberSyntax member.1 member.2) ∧ set.items = members.map Prod.snd ∧
    text = '[' :: ((if set.complement then ['^'] else []) ++ members.flatMap Prod.fst ++ [']'])

/-- Hexadecimal digits in braces are read as the character with that code. -/
theorem readCode_braces {digits : Text} (count : Nat) (rest : Text) (nonempty : digits ≠ [])
    (hexadecimal : ∀ digit ∈ digits, isHexDigit digit = true)
    (valid : (valueIn 16 digits).isValidChar) (positive : 0 < count) :
    readCode count ('{' :: (digits ++ '}' :: rest)) =
      .ok (Char.ofNatAux (valueIn 16 digits) valid, digits.length + 2) := by
  -- A brace is no digit, so the form without braces does not apply.
  have braced : startsWithHex count ('{' :: (digits ++ '}' :: rest)) = false := by
    obtain ⟨more, rfl⟩ := Nat.exists_eq_succ_of_ne_zero (Nat.ne_of_gt positive)
    simp [startsWithHex, isHexDigit]
  -- The run of digits ends at the closing brace.
  have run : (digits ++ '}' :: rest).takeWhile isHexDigit = digits := by
    rw [List.takeWhile_append_of_pos hexadecimal]
    simp [isHexDigit]
  -- The code is that of a character, so the conversion succeeds.
  have character : charOfCode (valueIn 16 digits) = .ok (Char.ofNatAux (valueIn 16 digits) valid) := by
    rw [charOfCode, dif_pos valid]
  -- Which character that is does not matter any more.
  generalize Char.ofNatAux (valueIn 16 digits) valid = symbol at character ⊢
  simp only [readCode, braced, Bool.false_eq_true, if_false, run, List.drop_left, List.head?_cons,
    Bool.and_true, bne_iff_ne, ne_eq, nonempty, not_false_eq_true, if_true,
    character, decide_true]
  rfl

/-- What starts a written character closes, separates and complements nothing. -/
theorem operators_of_start {first : Char} (start : first = '\\' ∨ first ∉ classOperators) :
    first ∉ ['[', ']', '^', '-', '&', '~'] := by
  -- A backslash is none of them, and a plain character is no operator at all.
  rcases start with rfl | ordinary
  · decide
  · exact fun operator => ordinary (List.mem_cons_of_mem _ operator)

/-- A character that is written out is read as an endpoint, whatever follows it. -/
theorem CharacterSyntax.read {text : Text} {symbol : Char} (written : CharacterSyntax text symbol) :
    ∃ first more, text = first :: more ∧ first ∉ ['[', ']', '^', '-', '&', '~'] ∧
      ∀ rest, readEndpoint first (more ++ rest) = .ok (.range symbol symbol, more.length) := by
  cases written with
  | plain symbol ordinary =>
    refine ⟨symbol, [], rfl, operators_of_start (.inr ordinary), ?_⟩
    intro rest
    -- Only a backslash starts an escape.
    have unmarked : symbol ≠ '\\' := by
      rintro rfl
      exact ordinary (by decide)
    unfold readEndpoint
    split
    · contradiction
    · contradiction
    · rfl
  | quoted symbol operator =>
    refine ⟨'\\', [symbol], rfl, by decide, ?_⟩
    -- There are seven operators, and each of them is read as itself behind a backslash.
    intro rest
    simp only [classOperators, List.mem_cons, List.not_mem_nil, or_false] at operator
    rcases operator with rfl | rfl | rfl | rfl | rfl | rfl | rfl <;> rfl
  | named letter symbol known =>
    refine ⟨'\\', [letter], rfl, by decide, ?_⟩
    intro rest
    simp only [List.mem_cons, Prod.mk.injEq, List.not_mem_nil, or_false] at known
    rcases known with ⟨rfl, rfl⟩ | ⟨rfl, rfl⟩ <;> rfl
  | code digits nonempty hexadecimal valid =>
    refine ⟨'\\', 'x' :: '{' :: (digits ++ ['}']), by simp, by decide, ?_⟩
    intro rest
    -- The code is read up to its closing brace.
    have code := readCode_braces 2 rest nonempty hexadecimal valid (by decide)
    generalize Char.ofNatAux (valueIn 16 digits) valid = symbol at code ⊢
    rw [List.cons_append, List.cons_append, List.append_assoc, List.singleton_append]
    simp only [readEndpoint, escapeFamily?, readCharEscape, code, Bind.bind, Except.bind,
      Pure.pure, Except.pure]
    simp

/-- A family that is written out starts with a bracket or a backslash and is read whole. -/
theorem FamilySyntax.read {text : Text} {item : SetItem} (written : FamilySyntax text item) :
    ∃ first more, text = first :: more ∧ first ∉ [']', '^', '-', '&', '~'] ∧
      ∀ rest, rest.head? ≠ some '-' → readSetItem first (more ++ rest) = .ok (item, more.length) := by
  -- Behind a backslash the letter is looked up before anything else.
  have letter (symbol : Char) (item : SetItem) (known : escapeFamily? symbol = some item)
      (rest : Text) (ends : rest.head? ≠ some '-') :
      readSetItem '\\' ([symbol] ++ rest) = .ok (item, 1) := by
    simp only [List.cons_append, List.nil_append, readSetItem, readEndpoint, known]
    cases rest with
    | nil => rfl
    | cons next tail =>
      -- A range would need a hyphen here.
      have other : next ≠ '-' := by simpa using ends
      simp [Bind.bind, Except.bind, Pure.pure, Except.pure]
      split
      · rename_i starts
        exact absurd (List.cons.inj starts).1 other
      · rfl
  cases written with
  | space => exact ⟨'\\', ['s'], rfl, by decide, letter 's' _ rfl⟩
  | notSpace => exact ⟨'\\', ['S'], rfl, by decide, letter 'S' _ rfl⟩
  | digit => exact ⟨'[', ":digit:]".toList, rfl, by decide, fun rest _ => rfl⟩
  | notDigit => exact ⟨'[', ":^digit:]".toList, rfl, by decide, fun rest _ => rfl⟩
  | word => exact ⟨'[', ":word:]".toList, rfl, by decide, fun rest _ => rfl⟩
  | notWord => exact ⟨'[', ":^word:]".toList, rfl, by decide, fun rest _ => rfl⟩

/-- A member that is written out is read whole in front of anything but a hyphen. -/
theorem MemberSyntax.read {text : Text} {item : SetItem} (written : MemberSyntax text item) :
    ∃ first more, text = first :: more ∧ first ∉ [']', '^', '-', '&', '~'] ∧
      ∀ rest, rest.head? ≠ some '-' → readSetItem first (more ++ rest) = .ok (item, more.length) := by
  -- What starts a character opens no family and doubles no operator.
  have plain {first : Char} (start : first ∉ ['[', ']', '^', '-', '&', '~']) (tail : Text) :
      first ≠ '[' ∧ ¬ ((['&', '-', '~'].contains first && tail.head? = some first) = true) := by
    simp only [List.mem_cons, List.not_mem_nil, or_false, not_or] at start
    simp [start]
  cases written with
  | single text symbol written =>
    obtain ⟨first, more, rfl, start, read⟩ := written.read
    refine ⟨first, more, rfl, fun operator => start (List.mem_cons_of_mem _ operator), ?_⟩
    intro rest ends
    -- Neither a family nor a doubled operator can start here, so an endpoint is read.
    obtain ⟨noFamily, noOperator⟩ := plain start (more ++ rest)
    simp only [readSetItem, if_neg noFamily, if_neg noOperator, read, Bind.bind, Except.bind,
      List.drop_left]
    -- The hyphen that would make this a range is excluded.
    split
    · simp at ends
    · rfl
  -- Both endpoints are read as characters, and the hyphen stands between them.
  | range low high least greatest lowWritten highWritten ordered =>
    obtain ⟨first, more, rfl, start, readLow⟩ := lowWritten.read
    obtain ⟨next, others, rfl, follows, readHigh⟩ := highWritten.read
    refine ⟨first, more ++ '-' :: next :: others, rfl,
      fun operator => start (List.mem_cons_of_mem _ operator), ?_⟩
    intro rest _
    rw [List.append_assoc, List.cons_append, List.cons_append]
    obtain ⟨noFamily, noOperator⟩ := plain start (more ++ '-' :: next :: (others ++ rest))
    -- The right endpoint neither closes the class nor is a hyphen.
    have endpoint : ¬ (next = ']' ∨ next = '-') := by
      simp only [List.mem_cons, List.not_mem_nil, or_false, not_or] at follows
      simp [follows]
    simp only [readSetItem, if_neg noFamily, if_neg noOperator, readLow, Bind.bind,
      Except.bind, List.drop_left, Bool.or_eq_true, decide_eq_true_eq, endpoint, if_false, readHigh,
      rangeBetween, if_pos ordered, Pure.pure, Except.pure]
    simp
    omega
  | family text item written => exact written.read

/-- Members that are written out are read one after another up to the closing bracket. -/
theorem readSetItems_members {members : List (Text × SetItem)}
    (written : ∀ member ∈ members, MemberSyntax member.1 member.2) (rest : Text) :
    readSetItems (members.flatMap Prod.fst ++ ']' :: rest) =
      .ok (members.map Prod.snd, (members.flatMap Prod.fst).length) := by
  induction members with
  | nil => simp [readSetItems]
  -- The first member is read, and the others are read by induction.
  | cons member members ih =>
    obtain ⟨first, more, text, start, read⟩ := (written member (by simp)).read
    have others := ih fun other inside => written other (by simp [inside])
    -- What follows starts with another member or with the closing bracket.
    have ends : (members.flatMap Prod.fst ++ ']' :: rest).head? ≠ some '-' := by
      cases members with
      | nil => simp
      | cons next members =>
        obtain ⟨symbol, tail, text, start, _⟩ := (written next (by simp)).read
        simp only [List.flatMap_cons, text, List.cons_append, List.head?_cons]
        rintro same
        obtain rfl := Option.some.inj same
        exact start (by decide)
    have notClosing : first ≠ ']' := by
      rintro rfl
      exact start (by decide)
    rw [List.flatMap_cons, text, List.cons_append, List.cons_append, List.append_assoc]
    rw [readSetItems]
    · simp only [read _ ends, Bind.bind, Except.bind, List.drop_left, others, Pure.pure, Except.pure,
        List.map_cons, List.length_cons, List.length_append]
      congr 2
      omega
    · exact notClosing

/-- A class is read by its members when neither a complement nor a bracket could be meant. -/
theorem readSet_eq (complement : Bool) {first : Char} {more : Text} (unmarked : first ≠ '^')
    (notClosing : first ≠ ']') :
    readSet ((if complement then ['^'] else []) ++ first :: more) =
      (readSetItems (first :: more)).map fun (items, length) =>
        (⟨complement, items⟩, (if complement then 1 else 0) + length + 1) := by
  -- The mark is looked for first, and then the bracket that would be a member.
  cases complement with
  | true =>
    simp only [readSet, if_true, List.singleton_append, List.head?_cons, decide_true,
      List.drop_succ_cons, List.drop_zero]
    split
    · rename_i starts
      exact absurd (List.cons.inj starts).1 notClosing
    · rfl
  -- Without a complement the first character is not taken for its mark.
  | false =>
    have other : (some first = some '^') = False := by simp [unmarked]
    simp only [readSet, Bool.false_eq_true, if_false, List.nil_append, List.head?_cons, other,
      decide_false, List.drop_zero]
    split
    · rename_i starts
      exact absurd (List.cons.inj starts).1 notClosing
    · rfl

/-- A class that is written out is read whole, whatever follows it. -/
theorem readSet_of_syntax {tail : Text} {set : CharSet} (written : ClassSyntax ('[' :: tail) set)
    (rest : Text) : readSet (tail ++ rest) = .ok (set, tail.length) := by
  obtain ⟨members, nonempty, each, items, text⟩ := written
  obtain ⟨complement, _⟩ := set
  obtain rfl := items
  obtain rfl := (List.cons.inj text).2
  have read := readSetItems_members each rest
  -- At least one member stands behind the opening, and it does not look like a part of it.
  obtain ⟨member, others, rfl⟩ := List.exists_cons_of_ne_nil nonempty
  obtain ⟨first, more, starts, start, _⟩ := (each member (by simp)).read
  simp only [List.mem_cons, List.not_mem_nil, or_false, not_or] at start
  rw [List.flatMap_cons, starts] at read ⊢
  simp only [List.append_assoc, List.cons_append, List.nil_append] at read ⊢
  rw [readSet_eq complement start.2.1 start.1, read]
  simp only [Except.map, List.length_append, List.length_cons, List.length_nil]
  cases complement <;> simp <;> omega

end RegexLens
