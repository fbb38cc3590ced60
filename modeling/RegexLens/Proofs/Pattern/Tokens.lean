import RegexLens.Pattern.Scanner
import RegexLens.Proofs.Text

/-! The tokens of a pattern cover it in order, and each has a shape that the scanner can cut. -/

namespace RegexLens

namespace Token

/-- A token as the scanner cuts it: a first character and as much behind it as its shape takes. -/
def Shaped (token : Token) : Prop :=
  -- Whatever follows the token in the pattern stays in the tail and is not part of its text.
  ∃ first tail, token.kind = (tokenShape first tail).1 ∧
    token.text = first :: tail.take (tokenShape first tail).2

/-- A token of the scanner holds its first character at least. -/
theorem Shaped.nonempty {token : Token} (shaped : token.Shaped) : token.text ≠ [] := by
  obtain ⟨first, tail, _, text⟩ := shaped
  -- The first character is part of the text whatever the shape is.
  simp [text]

end Token

/-- The kinds of tokens with the texts that each can have. -/
inductive TokenForm : TokenKind → Text → Prop
  /-- A class up to its closing bracket, or up to the end of the pattern. -/
  | characterClass (tail : Text) :
      TokenForm .characterClass (ClassParts.split ('[' :: tail)).text
  /-- A backslash with what it applies to. -/
  | escape (tail : Text) : TokenForm .escape ('\\' :: tail.take (escapeLength tail))
  /-- An opening parenthesis with its group type. -/
  | groupOpen (tail : Text) : TokenForm .groupOpen ('(' :: tail.take (groupTypeLength tail))
  /-- A closing parenthesis. -/
  | groupClose : TokenForm .groupClose [')']
  /-- A repetition mark, possibly lazy. -/
  | mark (first : Char) (tail : Text) (known : first = '?' ∨ first = '*' ∨ first = '+') :
      TokenForm .quantifier (first :: tail.take (withLazyMark 0 tail))
  /-- A complete interval, possibly lazy. -/
  | interval (tail : Text) (length : Nat) (complete : intervalLength? tail = some length) :
      TokenForm .quantifier ('{' :: tail.take (withLazyMark length tail))
  /-- The test for the start or for the end of the text. -/
  | anchor (first : Char) (known : first = '^' ∨ first = '$') : TokenForm .anchor [first]
  /-- The wildcard. -/
  | dot : TokenForm .dot ['.']
  /-- The mark between alternatives. -/
  | alternator : TokenForm .alternator ['|']
  /-- A brace that opens no interval. -/
  | brace : TokenForm .literal ['{']
  /-- A run of ordinary characters. -/
  | run (first : Char) (tail : Text) (ordinary : isOrdinary first = true) :
      TokenForm .literal (first :: tail.takeWhile isOrdinary)

/-- A class that starts with a bracket consists of it and of what its shape takes behind it. -/
theorem ClassParts.split_text_cons (first : Char) (tail : Text) :
    (ClassParts.split (first :: tail)).text =
      first :: tail.take ((ClassParts.split (first :: tail)).text.length - 1) := by
  -- The parts of a class are cut off the front of the text one after another.
  have front : (ClassParts.split (first :: tail)).text <+: first :: tail :=
    ⟨(ClassParts.split (first :: tail)).after, by
      simp only [ClassParts.split, ClassParts.text, List.append_assoc, List.take_append_drop]⟩
  have opened : 0 < (ClassParts.split (first :: tail)).text.length := by
    -- The opening is a bracket or two characters, and neither is empty.
    simp only [ClassParts.split, ClassParts.text, List.length_append]
    split <;> simp only [List.length_take, List.length_cons] <;> omega
  have whole := List.prefix_iff_eq_take.mp front
  -- One character less is taken from the tail, since the first one stands in front of it.
  rw [show (ClassParts.split (first :: tail)).text.length =
    (ClassParts.split (first :: tail)).text.length - 1 + 1 by omega, List.take_succ_cons] at whole
  exact whole

/-- The scanner cuts no other tokens than those listed. -/
theorem Token.Shaped.form {token : Token} (shaped : token.Shaped) :
    TokenForm token.kind token.text := by
  obtain ⟨first, tail, kind, text⟩ := shaped
  rw [kind, text]
  -- The first character selects the shape, one case for each group of characters.
  unfold tokenShape
  split
  · simpa only [← ClassParts.split_text_cons] using TokenForm.characterClass tail
  · exact .escape tail
  · exact .groupOpen tail
  · exact .mark _ tail (by simp)
  · exact .mark _ tail (by simp)
  · exact .mark _ tail (by simp)
  · -- A brace opens an interval only when the interval is complete.
    split
    · rename_i length complete
      exact .interval tail length complete
    · exact .brace
  · exact .dot
  · exact .groupClose
  · exact .alternator
  · exact .anchor _ (by simp)
  · exact .anchor _ (by simp)
  · -- A run takes exactly the ordinary characters in front.
    rw [take_length_of_append List.takeWhile_append_dropWhile]
    exact .run first tail (by simp_all [isOrdinary])

namespace TokenForm

variable {text : Text}

/-- An escape token is a backslash and what it applies to. -/
theorem of_escape (form : TokenForm .escape text) : ∃ sequence, text = '\\' :: sequence := by
  cases form with
  | escape tail => exact ⟨_, rfl⟩

/-- A group opens with a parenthesis and one of the group types, or with an unknown one. -/
theorem of_groupOpen (form : TokenForm .groupOpen text) :
    text = ['('] ∨ text = ['(', '?', ':'] ∨ text = ['(', '?', '='] ∨ text = ['(', '?', '!'] ∨
      text = ['(', '?'] := by
  cases form with
  | groupOpen tail =>
    -- Whatever follows decides between the group types, and nothing longer is ever taken.
    unfold groupTypeLength
    split <;> simp

/-- A closing parenthesis is one character. -/
theorem of_groupClose (form : TokenForm .groupClose text) : text = [')'] := by
  cases form with
  | groupClose => rfl

/-- An alternator is one character. -/
theorem of_alternator (form : TokenForm .alternator text) : text = ['|'] := by
  cases form with
  | alternator => rfl

/-- An anchor tests for the start or for the end of the text. -/
theorem of_anchor (form : TokenForm .anchor text) : text = ['^'] ∨ text = ['$'] := by
  cases form with
  -- The two tests are single characters.
  | anchor first known => rcases known with rfl | rfl <;> simp

end TokenForm

/-- Tokens that stand one behind the other without a gap from a byte offset on. -/
def Contiguous : Nat → List Token → Prop
  -- Nothing can be out of place when there is no token.
  | _, [] => True
  | offset, token :: rest => token.start = offset ∧ Contiguous (offset + byteSize token.text) rest

/-- Tokens that stand one behind the other do so on both sides of a cut. -/
theorem contiguous_append {offset : Nat} {first second : List Token} :
    Contiguous offset (first ++ second) ↔ Contiguous offset first ∧
      Contiguous (offset + byteSize (first.flatMap Token.text)) second := by
  induction first generalizing offset with
  | nil => simp [Contiguous]
  | cons token rest ih =>
    -- Behind the first token the offset has moved by its text.
    simp only [List.cons_append, Contiguous, ih, List.flatMap_cons, byteSize_append,
      Nat.add_assoc, and_assoc]

namespace Scanner

/-- One step cuts a token off the front of the text and moves behind it. -/
theorem next?_spec {scanner after : Scanner} {token : Token}
    (read : scanner.next? = some (token, after)) :
    token.text ++ after.rest = scanner.rest ∧ token.start = scanner.position ∧
      after.position = scanner.position + byteSize token.text ∧ token.Shaped := by
  unfold next? at read
  split at read
  · -- At the end of the text there is no token.
    contradiction
  · rename_i first tail pending
    simp only [Option.some.injEq, Prod.mk.injEq] at read
    obtain ⟨rfl, rfl⟩ := read
    -- Taking and dropping the same number of characters cut the tail into two pieces.
    refine ⟨?_, rfl, rfl, first, tail, rfl, rfl⟩
    simp [pending]

/-- A scanner without a next token has nothing left to read. -/
theorem next?_eq_none {scanner : Scanner} (ended : scanner.next? = none) : scanner.rest = [] := by
  unfold next? at ended
  -- The scanner stops only where no character is left.
  split at ended
  · assumption
  · contradiction

/-- The texts of the tokens are the text that is left, cut into pieces. -/
theorem tokens_text (scanner : Scanner) : scanner.tokens.flatMap Token.text = scanner.rest := by
  -- Each step moves one piece from the text to the tokens.
  fun_induction tokens scanner with
  -- Without a token no text is left.
  | case1 scanner ended => simp [next?_eq_none ended]
  | case2 scanner token after read _ ih =>
    -- The first token is what the step has cut off, and the others are the text behind it.
    rw [List.flatMap_cons, ih]
    exact (next?_spec read).1

/-- The first token stands at the position of the scanner, and the others follow it. -/
theorem tokens_contiguous (scanner : Scanner) : Contiguous scanner.position scanner.tokens := by
  fun_induction tokens scanner with
  | case1 scanner ended => trivial
  | case2 scanner token after read _ ih =>
    -- The scanner stands behind the token when it reads the next one.
    obtain ⟨_, start, position, _⟩ := next?_spec read
    exact ⟨start, position ▸ ih⟩

/-- Every token has the shape that its first character prescribes. -/
theorem tokens_shaped (scanner : Scanner) : ∀ token ∈ scanner.tokens, token.Shaped := by
  fun_induction tokens scanner with
  | case1 scanner ended => simp
  | case2 scanner token after read _ ih =>
    intro other member
    -- The first token has its shape from the step, and the others have theirs by induction.
    rcases List.mem_cons.mp member with rfl | member
    · exact (next?_spec read).2.2.2
    · exact ih other member

end Scanner

/-- The tokens of a pattern are the pattern, cut into pieces. -/
theorem scan_text (pattern : Text) : (scan pattern).flatMap Token.text = pattern :=
  Scanner.tokens_text (Scanner.start pattern)

/-- The tokens of a pattern stand one behind the other from its first byte on. -/
theorem scan_contiguous (pattern : Text) : Contiguous 0 (scan pattern) :=
  Scanner.tokens_contiguous (Scanner.start pattern)

/-- The tokens of a pattern have shapes that the scanner can cut. -/
theorem scan_shaped (pattern : Text) : ∀ token ∈ scan pattern, token.Shaped :=
  Scanner.tokens_shaped (Scanner.start pattern)

end RegexLens
