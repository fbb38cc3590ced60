import RegexLens.Proofs.Host.TokenSpelling

/-! A grammar of well-formed expressions of the host, and the host form of a pattern in it. -/

namespace RegexLens

/-- The characters that have a meaning of their own outside classes. -/
def hostOperators : Text :=
  ['\\', '.', '+', '*', '?', '(', ')', '|', '[', ']', '\x7b', '\x7d', '^', '$', '#']

/-- The ways to write a code point where some characters are operators, surrogates not excluded. -/
inductive CodeSyntax (operators : Text) : Text → Nat → Prop
  -- A character without a meaning of its own stands for itself.
  | plain (symbol : Char) (ordinary : symbol ∉ operators) :
      CodeSyntax operators [symbol] symbol.toNat
  | quoted (symbol : Char) (operator : symbol ∈ operators) :
      CodeSyntax operators ['\\', symbol] symbol.toNat
  | named (letter symbol : Char) (known : (letter, symbol) ∈ [('n', '\n'), ('r', '\r')]) :
      CodeSyntax operators ['\\', letter] symbol.toNat
  -- No code is beyond the last code point.
  | code (digits : Text) (nonempty : digits ≠ [])
      (hexadecimal : ∀ digit ∈ digits, isHexDigit digit = true)
      (bounded : valueIn 16 digits ≤ 0x10FFFF) :
      CodeSyntax operators (['\\', 'x', '{'] ++ digits ++ ['}']) (valueIn 16 digits)

/-- The ways to write a member of a class; the ends of a range are code points in order. -/
inductive HostMember : Text → Prop
  | single (text : Text) (code : Nat) (written : CodeSyntax classOperators text code) :
      HostMember text
  | range (low high : Text) (least greatest : Nat) (lowWritten : CodeSyntax classOperators low least)
      (highWritten : CodeSyntax classOperators high greatest) (ordered : least ≤ greatest) :
      HostMember (low ++ '-' :: high)
  | family (text : Text) (item : SetItem) (written : FamilySyntax text item) : HostMember text

/-- The ways to write a class: brackets around at least one member, and a mark for a complement. -/
def HostClass (text : Text) : Prop :=
  ∃ (complement : Bool) (members : List Text), members ≠ [] ∧
    (∀ member ∈ members, HostMember member) ∧
    text = '[' :: ((if complement then ['^'] else []) ++ members.flatten ++ [']'])

/-- The openings of groups that look at the text around them. -/
def lookOpenings : List Text :=
  ["(?=".toList, "(?!".toList, "(?<=".toList, "(?<!".toList]

/-- The well-formed texts of each phrase, with the numbers of capturing groups that are opened
before the text and up to its end. -/
inductive HostSyntax : Phrase → Nat → Text → Nat → Prop
  -- Atoms are what a quantifier can follow.
  | character (groups : Nat) (text : Text) (code : Nat) (written : CodeSyntax hostOperators text code) :
      HostSyntax .atom groups text groups
  | set (groups : Nat) (text : Text) (written : HostClass text) : HostSyntax .atom groups text groups
  -- A reference stands in a group of its own, and its group was opened before.
  | reference (groups number : Nat) (opened : 0 < number ∧ number ≤ groups) :
      HostSyntax .atom groups ("(?:\\".toList ++ decimalDigits number ++ [')']) groups
  | group (groups after : Nat) (inner : Text) (body : HostSyntax .alternatives groups inner after) :
      HostSyntax .atom groups ("(?:".toList ++ inner ++ [')']) after
  | capture (groups after : Nat) (inner : Text)
      (body : HostSyntax .alternatives (groups + 1) inner after) :
      HostSyntax .atom groups ('(' :: inner ++ [')']) after
  -- Terms are tests, and atoms with at most one quantifier.
  | anchor (groups : Nat) (text : Text) (known : text = ['^'] ∨ text = ['$']) :
      HostSyntax .term groups text groups
  | look (groups after : Nat) (opening inner : Text) (known : opening ∈ lookOpenings)
      (body : HostSyntax .alternatives groups inner after) :
      HostSyntax .term groups (opening ++ inner ++ [')']) after
  | once (groups after : Nat) (atom : Text) (body : HostSyntax .atom groups atom after) :
      HostSyntax .term groups atom after
  | repeated (groups after : Nat) (atom quantifier : Text) (body : HostSyntax .atom groups atom after)
      (good : GoodQuantifier quantifier) : HostSyntax .term groups (atom ++ quantifier) after
  -- A sequence is any number of terms, and alternatives are sequences with bars between them.
  | nil (groups : Nat) : HostSyntax .sequence groups [] groups
  | cons (groups middle after : Nat) (term rest : Text) (first : HostSyntax .term groups term middle)
      (others : HostSyntax .sequence middle rest after) :
      HostSyntax .sequence groups (term ++ rest) after
  | last (groups after : Nat) (sequence : Text) (only : HostSyntax .sequence groups sequence after) :
      HostSyntax .alternatives groups sequence after
  | more (groups middle after : Nat) (sequence rest : Text)
      (first : HostSyntax .sequence groups sequence middle)
      (others : HostSyntax .alternatives middle rest after) :
      HostSyntax .alternatives groups (sequence ++ '|' :: rest) after

/-- A code is written in braces, whichever characters are operators. -/
theorem CodeSyntax.ofCode (operators : Text) {code : Nat} (bounded : code ≤ 0x10FFFF) :
    CodeSyntax operators (codePointForm code) code := by
  -- The digits spell the code, so they are bounded by what bounds it.
  have value := valueIn_hexDigits code
  have written : CodeSyntax operators (codePointForm code) (valueIn 16 (hexDigits code)) :=
    .code (hexDigits code) (hexDigits_ne_nil code)
      (fun _ member => isHexDigit_of_mem_hexDigits member) (by omega)
  rwa [value] at written

/-- A character is quoted exactly when it is an operator. -/
theorem CodeSyntax.ofChar {operators : Text} {test : Char → Bool}
    (known : ∀ symbol, test symbol = true ↔ symbol ∈ operators) (symbol : Char) :
    CodeSyntax operators (if test symbol then ['\\', symbol] else [symbol]) symbol.toNat := by
  split
  · exact .quoted symbol ((known symbol).mp (by assumption))
  · exact .plain symbol fun operator => absurd ((known symbol).mpr operator) (by assumption)

/-- The operators that are quoted outside classes are those of the grammar. -/
theorem isHostOperator_iff (symbol : Char) :
    isHostOperator symbol = true ↔ symbol ∈ hostOperators :=
  List.contains_iff_mem

/-- The operators that are quoted inside classes are those of the grammar. -/
theorem isHostClassOperator_iff (symbol : Char) :
    isHostClassOperator symbol = true ↔ symbol ∈ classOperators :=
  List.contains_iff_mem

/-- An atom that is no shorthand class is written as the code point that it denotes. -/
theorem ClassItem.hostForm_code {atom : ClassItem} (complete : atom.Complete)
    (character : atom.isMetaclass = false) :
    ∃ code, CodeSyntax classOperators atom.hostForm code ∧ atom.code? = some code := by
  -- A character is quoted if it has to be, and an escape is written by its code.
  cases atom with
  | run first others =>
    obtain rfl : others = [] := complete
    have written := CodeSyntax.ofChar isHostClassOperator_iff first
    exact ⟨_, by simpa [hostForm, quoteWhere] using written, rfl⟩
  | hyphen => exact ⟨_, .quoted '-' (by decide), rfl⟩
  | escape sequence =>
    obtain ⟨form, applied, whole⟩ := complete
    have plain : RegexLens.isMetaclass sequence = false := character
    -- The sequence has a code, which is within the range of characters.
    obtain ⟨code, denoted⟩ := form.exists_sequenceCode? applied plain whole
    have bounded := (form.escapeCode_iff.mpr denoted).code_le
    refine ⟨code, ?_, denoted⟩
    simpa [hostForm, plain, characterForm, denoted] using CodeSyntax.ofCode _ bounded

/-- A member without faults is written as a member of the host. -/
theorem ClassMember.hostForm_member {member : ClassMember}
    (complete : ∀ atom ∈ member.atoms, atom.Complete)
    (faultless : ∀ low high, member = .range low high → rangeFault? low high = none) :
    HostMember member.hostForm := by
  cases member with
  | single atom =>
    have whole := complete atom (by simp [atoms])
    cases shorthand : atom.isMetaclass with
    | true =>
      -- A shorthand class is a family.
      cases atom with
      | run | hyphen => contradiction
      | escape sequence =>
        have named : RegexLens.isMetaclass sequence = true := shorthand
        obtain ⟨item, written, _⟩ := metaclassForm_syntax named
        simpa [hostForm, ClassItem.hostForm, named] using HostMember.family _ item written
    | false =>
      -- Any other atom is written as a single code.
      obtain ⟨code, written, _⟩ := ClassItem.hostForm_code whole shorthand
      exact .single _ code written
  | range low high =>
    -- The endpoints of a range have codes, and these are in order.
    obtain ⟨lowPlain, highPlain, ordered⟩ := rangeFault?_eq_none.mp (faultless low high rfl)
    obtain ⟨least, lowWritten, lowCode⟩ :=
      ClassItem.hostForm_code (complete low (by simp [atoms])) lowPlain
    obtain ⟨greatest, highWritten, highCode⟩ :=
      ClassItem.hostForm_code (complete high (by simp [atoms])) highPlain
    exact .range _ _ least greatest lowWritten highWritten (ordered _ lowCode _ highCode)

/-- A good class is written as a class of the host. -/
theorem classForm_hostClass {tail : Text} (good : GoodClass ('[' :: tail)) :
    HostClass (classForm ('[' :: tail)) := by
  have complete := classAtoms_complete good.closed good.complete
  -- Each member of the class is without a fault, as its atoms are.
  have each (member : ClassMember) (formed : member ∈ classMembers ('[' :: tail)) :
      HostMember member.hostForm := by
    refine ClassMember.hostForm_member ?_ ?_
    · intro atom inside
      exact complete atom (ClassMember.atoms_subset_of_mem_all formed atom inside)
    · rintro low high rfl
      exact good.faultless formed
  -- The mark for a complement is kept as it stands.
  have opening : ∃ complement : Bool, (ClassParts.split ('[' :: tail)).opening =
      '[' :: if complement then ['^'] else [] := by
    rcases ClassParts.opening_eq tail with ⟨opening, _⟩ | ⟨opening, _⟩
    · exact ⟨true, opening⟩
    · exact ⟨false, opening⟩
  obtain ⟨complement, opening⟩ := opening
  refine ⟨complement, (classMembers ('[' :: tail)).map ClassMember.hostForm, ?_, ?_, ?_⟩
  · simpa using classMembers_ne_nil good.closed
  · simpa using each
  · rw [classForm_members good.closed, opening, ← List.flatMap_def]
    simp

end RegexLens
