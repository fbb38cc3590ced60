import Mathlib.Data.List.Forall2
import RegexLens.Proofs.Host.Spelling
import RegexLens.Proofs.Pattern.TokenReading

/-! The tokens of a phrase stand for one list of trees, up to the ways in which sets are written. -/

namespace RegexLens

namespace PatternTree

/-- Trees that differ at most in how they write sets which hold the same characters. -/
inductive Same : PatternTree → PatternTree → Prop
  | refl (tree : PatternTree) : Same tree tree
  | set (first second : CharSet)
      (members : ∀ symbol, first.contains symbol = second.contains symbol) :
      Same (.set first) (.set second)
  -- Everything else is compared part by part.
  | group {first second : PatternTree} (inside : Same first second) :
      Same (.group first) (.group second)
  | capture {first second : PatternTree} (number : Nat) (inside : Same first second) :
      Same (.capture number first) (.capture number second)
  | look {first second : PatternTree} (wanted : Bool) (inside : Same first second) :
      Same (.look wanted first) (.look wanted second)
  | repeated {first second : PatternTree} (bounds : Bounds) (isLazy : Bool)
      (inside : Same first second) :
      Same (.repeated bounds isLazy first) (.repeated bounds isLazy second)
  | sequence {first second rest others : PatternTree} (front : Same first second)
      (behind : Same rest others) : Same (.sequence first rest) (.sequence second others)
  | choice {first second rest others : PatternTree} (front : Same first second)
      (behind : Same rest others) : Same (.choice first rest) (.choice second others)

/-- Lists of trees that are the same one by one. -/
abbrev AllSame : List PatternTree → List PatternTree → Prop :=
  List.Forall₂ Same

/-- Trees are the same as themselves. -/
theorem AllSame.refl (trees : List PatternTree) : AllSame trees trees :=
  List.forall₂_same.mpr fun tree _ => .refl tree

/-- Sequences of the same trees are the same. -/
theorem AllSame.chain {first second : List PatternTree} (same : AllSame first second) :
    Same (chain first) (chain second) := by
  induction same with
  | nil => exact .refl _
  -- The first trees are the same, and so are the sequences of the others.
  | cons one _ ih => exact .sequence one ih

/-- Lists that are the same agree in their last trees and in those in front of them. -/
theorem AllSame.of_concat {front others : List PatternTree} {last other : PatternTree}
    (same : AllSame (front ++ [last]) (others ++ [other])) :
    AllSame front others ∧ Same last other := by
  -- Seen from the back, the last trees come first.
  have turned := List.forall₂_reverse_iff.mpr same
  rw [List.reverse_append, List.reverse_append] at turned
  cases turned with
  | cons one rest => exact ⟨List.forall₂_reverse_iff.mp rest, one⟩

end PatternTree

open PatternTree

/-- A token that begins a test, behind which no quantifier can stand. -/
def Token.StartsTest (token : Token) : Prop :=
  token.kind = .anchor ∨ (token.kind = .escape ∧ IsBoundary token.text) ∨
    (token.kind = .groupOpen ∧ OpensLookahead token.text)

/-- A token that continues a phrase or ends one, and so begins none. -/
def Token.Continues (token : Token) : Prop :=
  token.kind = .quantifier ∨ token.kind = .alternator ∨ token.kind = .groupClose

/-- The trees that a token on its own stands for, when it is a test. -/
def Token.Tests (token : Token) (trees : List PatternTree) : Prop :=
  (token.kind = .anchor ∧ token.text = ['^'] ∧ trees = [.textStart]) ∨
    (token.kind = .anchor ∧ token.text = ['$'] ∧ trees = [.textEnd]) ∨
    ∃ wanted : Bool, token.kind = .escape ∧ token.text = ['\\', if wanted then 'b' else 'B'] ∧
      trees = [.boundary wanted]

/-- A token on its own is the same test each time. -/
theorem Token.Tests.unique {token : Token} {trees others : List PatternTree}
    (one : token.Tests trees) (two : token.Tests others) : AllSame trees others := by
  -- The kind and the text of a token say which test it is.
  have same : trees = others := by
    rcases one with ⟨kind, text, rfl⟩ | ⟨kind, text, rfl⟩ | ⟨wanted, kind, text, rfl⟩ <;>
      rcases two with ⟨known, again, rfl⟩ | ⟨known, again, rfl⟩ | ⟨other, known, again, rfl⟩
    all_goals simp_all
    cases wanted <;> cases other <;> simp_all
  rw [same]
  exact .refl _

/-- The trees that a token on its own stands for, when it is an atom. -/
def Token.Stands (groups : Nat) (token : Token) (trees : List PatternTree) : Prop :=
  match token.kind with
  | .literal => trees = token.text.map .char
  | .dot => ∃ members : CharSet,
      (∀ symbol, members.contains symbol = true ↔ symbol ∉ lineTerminators) ∧ trees = [.set members]
  | .characterClass => ∃ members : CharSet,
      (∀ symbol, members.contains symbol = true ↔ ClassDenotes token.text symbol) ∧
        trees = [.set members]
  | .escape =>
    let sequence := token.text.drop 1
    if startsNumbered sequence then
      ∃ escape, NumberReads (largestGroup groups) sequence escape ∧
        match escape with
        | .reference number length => trees = .reference number :: (sequence.drop length).map .char
        | .code value length => ∃ symbol : Char, symbol.toNat = value ∧
            trees = .char symbol :: (sequence.drop length).map .char
    else if isMetaclass sequence then ∃ members : CharSet,
      (∀ symbol, members.contains symbol = shorthandContains sequence symbol) ∧
        trees = [.set members]
    else ∃ symbol : Char, EscapeCode sequence (some symbol.toNat) ∧ trees = [.char symbol]
  | _ => False

/-- A token on its own stands for the same trees each time. -/
theorem Token.Stands.unique {groups : Nat} {token : Token} {trees others : List PatternTree}
    (one : token.Stands groups trees) (two : token.Stands groups others) :
    AllSame trees others := by
  -- Sets with the same conditions on their members hold the same characters.
  have sets {first second : CharSet} {holds : Char → Prop}
      (left : ∀ symbol, first.contains symbol = true ↔ holds symbol)
      (right : ∀ symbol, second.contains symbol = true ↔ holds symbol) :
      AllSame [.set first] [.set second] := by
    refine .cons (.set first second fun symbol => ?_) .nil
    rw [Bool.eq_iff_iff, left, right]
  have symbols {first second : Char} (same : first.toNat = second.toNat) (rest : List PatternTree) :
      AllSame (.char first :: rest) (.char second :: rest) := by
    rw [Char.toNat_inj.mp same]
    exact .refl _
  -- The kind of the token says which condition both lists of trees meet.
  unfold Token.Stands at one two
  cases kind : token.kind with
  -- A literal is its characters.
  | literal =>
    simp only [kind] at one two
    rw [one, two]
    exact .refl _
  -- A dot is a set, of which the conditions say everything.
  | dot =>
    simp only [kind] at one two
    obtain ⟨first, left, rfl⟩ := one
    obtain ⟨second, right, rfl⟩ := two
    exact sets left right
  -- A class is a set, too.
  | characterClass =>
    simp only [kind] at one two
    obtain ⟨first, left, rfl⟩ := one
    obtain ⟨second, right, rfl⟩ := two
    exact sets left right
  | escape =>
    simp only [kind] at one two
    split at one
    · -- A number is read in one way, as a reference or as a code.
      rename_i numbered
      rw [if_pos numbered] at two
      obtain ⟨escape, read, one⟩ := one
      obtain ⟨other, again, two⟩ := two
      obtain rfl := read.unique again
      -- As a code the number denotes one character, and the digits behind it are the same.
      cases escape with
      | reference number length =>
        simp only at one two
        rw [one, two]
        exact .refl _
      | code value length =>
        obtain ⟨first, left, rfl⟩ := one
        obtain ⟨second, right, rfl⟩ := two
        exact symbols (left.trans right.symm) _
    · -- Any other escape is a shorthand class or a single character.
      rename_i unnumbered
      rw [if_neg unnumbered] at two
      split at one
      · rename_i named
        rw [if_pos named] at two
        obtain ⟨first, left, rfl⟩ := one
        obtain ⟨second, right, rfl⟩ := two
        refine .cons (.set first second fun symbol => ?_) .nil
        rw [left, right]
      · rename_i unnamed
        rw [if_neg unnamed] at two
        obtain ⟨first, left, rfl⟩ := one
        obtain ⟨second, right, rfl⟩ := two
        -- One sequence does not have two codes.
        exact symbols (Option.some.inj (left.unique right)) _
  | _ => simp [kind] at one

namespace Reads

variable {groups : Nat} {tokens more rest tail : List Token} {trees others : List PatternTree}

/-- An atom begins with a token that begins neither a test nor the continuation of a phrase. -/
theorem atom_start (reads : Reads .atom groups tokens trees) :
    ∃ first more, tokens = first :: more ∧ ¬ first.StartsTest ∧ ¬ first.Continues := by
  -- Only an escape could be mistaken for a test, and then its letters tell it apart.
  cases reads with
  -- A token that is no escape is told apart by its kind.
  | literal _ token kind =>
    exact ⟨token, [], rfl, by simp [Token.StartsTest, kind], by simp [Token.Continues, kind]⟩
  | dot _ token kind =>
    exact ⟨token, [], rfl, by simp [Token.StartsTest, kind], by simp [Token.Continues, kind]⟩
  | characterClass _ token kind =>
    exact ⟨token, [], rfl, by simp [Token.StartsTest, kind], by simp [Token.Continues, kind]⟩
  | shorthand _ token kind sequence text named =>
    -- The letters of the shorthand classes are not those of the tests.
    have known : sequence ≠ ['b'] ∧ sequence ≠ ['B'] := by
      rcases eq_of_isMetaclass (isShorthand_iff.mp named) with rfl | rfl | rfl | rfl | rfl | rfl <;>
        simp
    exact ⟨token, [], rfl, by simp [Token.StartsTest, kind, text, isBoundary_cons, known],
      by simp [Token.Continues, kind]⟩
  -- A good escape is no test, by definition.
  | character _ token kind sequence text good =>
    rw [text, goodEscape_cons] at good
    exact ⟨token, [], rfl, by simp [Token.StartsTest, kind, text, isBoundary_cons, good.2.2],
      by simp [Token.Continues, kind]⟩
  -- Digits are no test.
  | reference _ token kind digits text numbered =>
    have known := (startsNumbered_excludes (isNumbered_iff.mp numbered)).2
    exact ⟨token, [], rfl, by simp [Token.StartsTest, kind, text, isBoundary_cons, known],
      by simp [Token.Continues, kind]⟩
  | code _ token kind digits text numbered =>
    have known := (startsNumbered_excludes (isNumbered_iff.mp numbered)).2
    exact ⟨token, [], rfl, by simp [Token.StartsTest, kind, text, isBoundary_cons, known],
      by simp [Token.Continues, kind]⟩
  -- The opening of a lookahead has a type of its own.
  | group _ opening closing inner opens type =>
    exact ⟨opening, _, rfl, by simp [Token.StartsTest, opens, type, OpensLookahead],
      by simp [Token.Continues, opens]⟩
  | capture _ opening closing inner opens type =>
    exact ⟨opening, _, rfl, by simp [Token.StartsTest, opens, type, OpensLookahead],
      by simp [Token.Continues, opens]⟩

/-- An atom does not begin with a token that begins a test. -/
theorem not_startsTest (reads : Reads .atom groups tokens trees) {token : Token}
    (same : token :: rest = tokens ++ tail) : ¬ token.StartsTest := by
  obtain ⟨first, more, rfl, begins, _⟩ := reads.atom_start
  obtain rfl := (List.cons.inj same).1
  exact begins

/-- An atom is a token on its own, or a group. -/
theorem atom_cases (reads : Reads .atom groups tokens trees) :
    (∃ token, tokens = [token] ∧ token.Stands groups trees) ∨
      ∃ opening closing inner body, tokens = opening :: (inner ++ [closing]) ∧
        opening.kind = .groupOpen ∧ closing.kind = .groupClose ∧
        ((opening.text = ['(', '?', ':'] ∧ Reads .alternatives groups inner [body] ∧
            trees = [.group body]) ∨
          (opening.text = ['('] ∧ Reads .alternatives (groups + 1) inner [body] ∧
            trees = [.capture (groups + 1) body])) := by
  -- Each rule for atoms is about one token or about a group.
  cases reads with
  | literal _ token kind => exact .inl ⟨token, rfl, by simp [Token.Stands, kind]⟩
  | dot _ token kind members contains =>
    exact .inl ⟨token, rfl, by simpa [Token.Stands, kind] using contains⟩
  | characterClass _ token kind members contains =>
    exact .inl ⟨token, rfl, by simpa [Token.Stands, kind] using contains⟩
  -- Digits are looked for first, and a shorthand class begins with none.
  | shorthand _ token kind sequence text named members contains =>
    have found := isShorthand_iff.mp named
    exact .inl ⟨token, rfl,
      by simpa [Token.Stands, kind, text, named.unnumbered, found] using contains⟩
  | character _ token kind sequence text good unnumbered symbol code =>
    rw [not_isNumbered_iff] at unnumbered
    -- What denotes a character is no shorthand class.
    have unnamed : isMetaclass sequence = false := by
      rw [← Bool.not_eq_true]
      intro named
      have absent := code.eq_sequenceCode?
      simp [sequenceCode?_eq_none (.inr (.inl named))] at absent
    exact .inl ⟨token, rfl,
      by simpa [Token.Stands, kind, text, unnumbered, unnamed] using code⟩
  -- The number is read as a reference, with its digits left over.
  | reference _ token kind digits text numbered number length read =>
    rw [isNumbered_iff] at numbered
    refine .inl ⟨token, rfl, ?_⟩
    simp only [Token.Stands, kind, text, List.drop_succ_cons, List.drop_zero, numbered, if_true]
    exact ⟨_, read, rfl⟩
  | code _ token kind digits text numbered symbol length read =>
    rw [isNumbered_iff] at numbered
    refine .inl ⟨token, rfl, ?_⟩
    simp only [Token.Stands, kind, text, List.drop_succ_cons, List.drop_zero, numbered, if_true]
    exact ⟨_, read, symbol, rfl, rfl⟩
  -- Of groups there are two, and the one that captures counts itself.
  | group _ opening closing inner opens type closes body inside =>
    exact .inr ⟨opening, closing, inner, body, rfl, opens, closes, .inl ⟨type, inside, rfl⟩⟩
  | capture _ opening closing inner opens type closes body inside =>
    exact .inr ⟨opening, closing, inner, body, rfl, opens, closes, .inr ⟨type, inside, rfl⟩⟩

/-- An atom that begins with the opening of a group is that group. -/
theorem group_cases {opening : Token} (opens : opening.kind = .groupOpen)
    (reads : Reads .atom groups tokens trees) (same : opening :: rest = tokens ++ tail) :
    ∃ closing inner body, tokens = opening :: (inner ++ [closing]) ∧ closing.kind = .groupClose ∧
      ((opening.text = ['(', '?', ':'] ∧ Reads .alternatives groups inner [body] ∧
          trees = [.group body]) ∨
        (opening.text = ['('] ∧ Reads .alternatives (groups + 1) inner [body] ∧
          trees = [.capture (groups + 1) body])) := by
  rcases reads.atom_cases with ⟨token, rfl, own⟩ |
    ⟨other, closing, inner, body, rfl, _, closes, read⟩
  · -- The opening is no atom on its own.
    obtain rfl := (List.cons.inj same).1
    simp [Token.Stands, opens] at own
  · -- The group begins with the same opening, so it is the one that was found.
    obtain rfl := (List.cons.inj same).1
    exact ⟨closing, inner, body, rfl, closes, read⟩

/-- An atom of one token is that token on its own. -/
theorem stands {token : Token} (reads : Reads .atom groups [token] trees) :
    token.Stands groups trees := by
  rcases reads.atom_cases with ⟨other, starts, own⟩ | ⟨opening, closing, inner, body, starts, _⟩
  · obtain rfl := (List.cons.inj starts).1
    exact own
  · -- A group has an end besides its opening.
    simp at starts

/-- A term is a test of one token or of a group, an atom, or an atom with a quantifier. -/
theorem term_cases (reads : Reads .term groups tokens trees) :
    (∃ first more, tokens = first :: more ∧ first.StartsTest ∧
        ((more = [] ∧ first.Tests trees) ∨
          ∃ inner closing body, ∃ wanted : Bool, more = inner ++ [closing] ∧
            first.kind = .groupOpen ∧ closing.kind = .groupClose ∧
            first.text = ['(', '?', if wanted then '=' else '!'] ∧
            Reads .alternatives groups inner [body] ∧ trees = [.look wanted body])) ∨
      Reads .atom groups tokens trees ∨
      ∃ atom quantifier front last bounds isLazy, tokens = atom ++ [quantifier] ∧
        quantifier.kind = .quantifier ∧ Reads .atom groups atom (front ++ [last]) ∧
        RepeatsAs quantifier.text bounds isLazy ∧
        trees = front ++ [.repeated bounds isLazy last] := by
  -- The rules for terms are sorted by how the term begins.
  cases reads with
  | textStart _ token kind text =>
    exact .inl ⟨token, [], rfl, .inl kind, .inl ⟨rfl, .inl ⟨kind, text, rfl⟩⟩⟩
  | textEnd _ token kind text =>
    exact .inl ⟨token, [], rfl, .inl kind, .inl ⟨rfl, .inr (.inl ⟨kind, text, rfl⟩)⟩⟩
  -- The text of the test says which of the two it is.
  | boundary _ token kind wanted text =>
    have test : IsBoundary token.text := by
      cases wanted <;> simp [IsBoundary, text]
    exact .inl ⟨token, [], rfl, .inr (.inl ⟨kind, test⟩),
      .inl ⟨rfl, .inr (.inr ⟨wanted, kind, text, rfl⟩)⟩⟩
  -- The type of the lookahead makes it a test.
  | lookahead _ opening closing inner opens wanted type closes body inside =>
    have looks : OpensLookahead opening.text := by
      cases wanted <;> simp [OpensLookahead, type]
    exact .inl ⟨opening, _, rfl, .inr (.inr ⟨opens, looks⟩),
      .inr ⟨inner, closing, body, wanted, rfl, opens, closes, type, inside, rfl⟩⟩
  | once _ _ _ atom => exact .inr (.inl atom)
  | repeated _ atom quantifier front last own kind bounds isLazy text =>
    exact .inr (.inr ⟨atom, quantifier, front, last, bounds, isLazy, rfl, kind, own, text, rfl⟩)

/-- A term begins with a token that continues nothing. -/
theorem term_start (reads : Reads .term groups tokens trees) :
    ∃ first more, tokens = first :: more ∧ ¬ first.Continues := by
  -- What begins a term is a test or the beginning of an atom.
  rcases reads.term_cases with ⟨first, more, starts, test, _⟩ | atom |
    ⟨atom, quantifier, front, last, bounds, isLazy, starts, _, own, _⟩
  · refine ⟨first, more, starts, ?_⟩
    rcases test with kind | ⟨kind, _⟩ | ⟨kind, _⟩ <;> simp [Token.Continues, kind]
  · obtain ⟨first, more, starts, _, begins⟩ := atom.atom_start
    exact ⟨first, more, starts, begins⟩
  · obtain ⟨first, more, rfl, _, begins⟩ := own.atom_start
    exact ⟨first, _, starts, begins⟩

/-- A token that is an atom on its own is the whole atom wherever it stands. -/
theorem unique_token {token : Token} (one : token.Stands groups trees)
    (two : Reads .atom groups more others) (same : token :: rest = more ++ tail) :
    [token] = more ∧ AllSame trees others := by
  rcases two.atom_cases with ⟨other, rfl, again⟩ | ⟨opening, closing, inner, body, rfl, opens, _⟩
  · obtain rfl := (List.cons.inj same).1
    exact ⟨rfl, one.unique again⟩
  · -- The opening of a group is no atom on its own.
    obtain rfl := (List.cons.inj same).1
    simp [Token.Stands, opens] at one

/-- A token that is a test on its own is the whole term wherever it stands. -/
theorem unique_test {token : Token} (starts : token.StartsTest) (one : token.Tests trees)
    (two : Reads .term groups more others) (same : token :: rest = more ++ tail) :
    [token] = more ∧ AllSame trees others := by
  -- The other reading cannot be an atom, since atoms begin with no test.
  rcases two.term_cases with ⟨first, behind, rfl, _, test⟩ | atom |
    ⟨atom, quantifier, front, last, bounds, isLazy, rfl, _, own, _⟩
  · obtain rfl := (List.cons.inj same).1
    -- A test of one token is no opening of a group.
    rcases test with ⟨rfl, again⟩ | ⟨inner, closing, body, wanted, _, opens, _⟩
    · exact ⟨rfl, one.unique again⟩
    · rcases one with ⟨kind, _⟩ | ⟨kind, _⟩ | ⟨_, kind, _⟩ <;> simp [kind] at opens
  · exact absurd starts (atom.not_startsTest same)
  · rw [List.append_assoc] at same
    exact absurd starts (own.not_startsTest same)

end Reads

/-- What can stand behind a phrase that is read as far as it goes. -/
def Phrase.Ends (phrase : Phrase) (tail : List Token) : Prop :=
  match phrase with
  -- An atom ends by itself, and every longer phrase ends where it cannot go on.
  | .atom => True
  | .term => ∀ next ∈ tail.head?, next.kind ≠ .quantifier
  | .sequence => ∀ next ∈ tail.head?, next.kind = .alternator ∨ next.kind = .groupClose
  | .alternatives | .branches | .pattern => ∀ next ∈ tail.head?, next.kind = .groupClose

namespace Reads

variable {phrase : Phrase} {groups : Nat} {tokens more rest tail : List Token}
  {trees others : List PatternTree}

/-- Behind a term there is another one, or the end of the sequence. -/
theorem term_ends (reads : Reads .sequence groups tokens trees)
    (ends : Phrase.Ends .sequence rest) : Phrase.Ends .term (tokens ++ rest) := by
  -- Only the first token behind the term matters.
  intro next front
  cases reads with
  -- The sequence ends here, so what follows it ends the sequence.
  | nil =>
    rcases ends next front with kind | kind <;> simp [kind]
  | cons _ term others trees _ first =>
    obtain ⟨start, more, rfl, begins⟩ := first.term_start
    obtain rfl := Option.some.inj front
    -- A term does not begin with a quantifier.
    exact fun kind => begins (.inl kind)

/-- Terms do not stand where a sequence ends. -/
theorem not_ends (reads : Reads .term groups tokens trees) :
    ¬ Phrase.Ends .sequence (tokens ++ rest) := by
  intro ends
  obtain ⟨first, more, rfl, begins⟩ := reads.term_start
  exact begins (.inr (ends first rfl))

/-- Behind an atom that is a term of its own no quantifier stands. -/
theorem not_quantified {atom again : List Token} {quantifier : Token}
    (kind : quantifier.kind = .quantifier) (cut : atom = again)
    (same : atom ++ rest = again ++ quantifier :: tail) : ¬ Phrase.Ends .term rest := by
  -- What is left would begin with the quantifier.
  intro ends
  subst cut
  obtain rfl := List.append_cancel_left same
  exact ends quantifier rfl kind

/-- Groups that begin at the same place end at the same place when their contents do. -/
theorem unique_enclosed {opening closing other last : Token} {inner contents : List Token}
    {alike : Prop} (closes : closing.kind = .groupClose) (ended : last.kind = .groupClose)
    (same : opening :: (inner ++ [closing]) ++ rest = other :: (contents ++ [last]) ++ tail)
    (inside : inner ++ closing :: rest = contents ++ last :: tail →
      Phrase.Ends .alternatives (closing :: rest) → Phrase.Ends .alternatives (last :: tail) →
        inner = contents ∧ alike) :
    opening :: (inner ++ [closing]) = other :: (contents ++ [last]) ∧ alike := by
  -- The openings are the same token, so that the contents begin at the same place.
  have cut : opening = other ∧ inner ++ closing :: rest = contents ++ last :: tail := by
    simpa using same
  obtain ⟨rfl, behind⟩ := cut
  obtain ⟨rfl, proven⟩ := inside behind (by simp [Phrase.Ends, closes]) (by simp [Phrase.Ends, ended])
  -- The contents are the same, so the bracket behind them is the same token.
  obtain ⟨rfl, _⟩ := List.cons.inj (List.append_cancel_left behind)
  exact ⟨rfl, proven⟩

/-- Of the tokens that are left, a phrase takes the same ones each time, and it stands for the same
trees. -/
theorem unique_of_append (one : Reads phrase groups tokens trees)
    (two : Reads phrase groups more others) (same : tokens ++ rest = more ++ tail)
    (ends : phrase.Ends rest) (also : phrase.Ends tail) :
    tokens = more ∧ AllSame trees others := by
  -- What is left behind a phrase stays open, since it is longer for each of its parts.
  induction one generalizing more rest tail others with
  -- The atoms of one token, whatever they stand for.
  | literal groups token kind => exact unique_token (stands (.literal groups token kind)) two same
  | dot groups token kind members contains =>
    exact unique_token (stands (.dot groups token kind members contains)) two same
  | characterClass groups token kind members contains =>
    exact unique_token (stands (.characterClass groups token kind members contains)) two same
  | shorthand groups token kind sequence text named members contains =>
    exact unique_token (stands (.shorthand groups token kind sequence text named members contains))
      two same
  | character groups token kind sequence text good unnumbered symbol code =>
    exact unique_token
      (stands (.character groups token kind sequence text good unnumbered symbol code)) two same
  | reference groups token kind digits text numbered number length resolved =>
    exact unique_token
      (stands (.reference groups token kind digits text numbered number length resolved)) two same
  | code groups token kind digits text numbered symbol length resolved =>
    exact unique_token
      (stands (.code groups token kind digits text numbered symbol length resolved)) two same
  | group groups opening closing inner opens type closes body inside ih =>
    -- The other reading begins with the same opening, and it has the same type.
    obtain ⟨last, contents, tree, rfl, ended, read⟩ := two.group_cases opens same
    rcases read with ⟨_, again, rfl⟩ | ⟨bare, _⟩
    · obtain ⟨cut, bodies⟩ := unique_enclosed closes ended same (ih again)
      obtain ⟨body, _⟩ := List.forall₂_cons.mp bodies
      exact ⟨cut, .cons (.group body) .nil⟩
    · simp [type] at bare
  | capture groups opening closing inner opens type closes body inside ih =>
    obtain ⟨last, contents, tree, rfl, ended, read⟩ := two.group_cases opens same
    rcases read with ⟨typed, _⟩ | ⟨_, again, rfl⟩
    · simp [type] at typed
    · obtain ⟨cut, bodies⟩ := unique_enclosed closes ended same (ih again)
      obtain ⟨body, _⟩ := List.forall₂_cons.mp bodies
      exact ⟨cut, .cons (.capture _ body) .nil⟩
  | textStart groups token kind text =>
    exact unique_test (.inl kind) (.inl ⟨kind, text, rfl⟩) two same
  | textEnd groups token kind text =>
    exact unique_test (.inl kind) (.inr (.inl ⟨kind, text, rfl⟩)) two same
  | boundary groups token kind wanted text =>
    have test : IsBoundary token.text := by cases wanted <;> simp [IsBoundary, text]
    exact unique_test (.inr (.inl ⟨kind, test⟩)) (.inr (.inr ⟨wanted, kind, text, rfl⟩)) two same
  | lookahead groups opening closing inner opens wanted type closes body inside ih =>
    -- A lookahead is a test, so that the other reading is one as well.
    have looks : OpensLookahead opening.text := by cases wanted <;> simp [OpensLookahead, type]
    have starts : opening.StartsTest := .inr (.inr ⟨opens, looks⟩)
    rcases two.term_cases with ⟨first, behind, rfl, _, test⟩ | again |
      ⟨again, quantifier, front, last, bounds, isLazy, rfl, _, own, _⟩
    · obtain rfl := (List.cons.inj same).1
      rcases test with ⟨rfl, known⟩ |
        ⟨contents, last, tree, other, rfl, _, ended, known, again, rfl⟩
      · rcases known with ⟨kind, _⟩ | ⟨kind, _⟩ | ⟨_, kind, _⟩ <;> simp [opens] at kind
      · -- The type of the group says what it looks for.
        obtain rfl : wanted = other := by
          rw [type] at known
          cases wanted <;> cases other <;> simp_all
        obtain ⟨cut, bodies⟩ := unique_enclosed closes ended same (ih again)
        obtain ⟨body, _⟩ := List.forall₂_cons.mp bodies
        exact ⟨cut, .cons (.look _ body) .nil⟩
    · exact absurd starts (again.not_startsTest same)
    · rw [List.append_assoc] at same
      exact absurd starts (own.not_startsTest same)
  | once groups tokens trees atom ih =>
    rcases two.term_cases with ⟨first, more, rfl, test, _⟩ | again |
      ⟨again, quantifier, front, last, bounds, isLazy, rfl, kind, own, _⟩
    · -- An atom is no test.
      exact absurd test (atom.not_startsTest same.symm)
    · exact ih again same trivial trivial
    · -- A quantifier behind the same atom would stand where the first term has ended.
      rw [List.append_assoc] at same
      obtain ⟨cut, _⟩ := ih own same trivial trivial
      exact absurd ends (not_quantified kind cut same)
  | repeated groups tokens quantifier front last atom kind bounds isLazy text accepted ih =>
    rcases two.term_cases with ⟨first, more, rfl, test, _⟩ | again |
      ⟨again, other, others, final, otherBounds, otherLazy, rfl, _, own, known, rfl⟩
    · rw [List.append_assoc] at same
      exact absurd test (atom.not_startsTest same.symm)
    · -- And the other way round.
      rw [List.append_assoc] at same
      obtain ⟨cut, _⟩ := ih again same trivial trivial
      exact absurd also (not_quantified kind cut.symm same.symm)
    · -- Both quantifiers stand behind the same atom, and so they are the same token.
      rw [List.append_assoc, List.append_assoc] at same
      obtain ⟨rfl, alike⟩ := ih own same trivial trivial
      obtain ⟨rfl, _⟩ := List.cons.inj (List.append_cancel_left same)
      obtain ⟨rfl, rfl⟩ := RepeatsAs.unique text known
      obtain ⟨front, last⟩ := AllSame.of_concat alike
      exact ⟨rfl, List.rel_append front (.cons (.repeated _ _ last) .nil)⟩
  -- Without a term the sequence ends where the other one would have a first token.
  | nil groups =>
    cases two with
    | nil => exact ⟨rfl, .nil⟩
    | cons _ term behind _ _ first =>
      rw [List.nil_append, List.append_assoc] at same
      rw [same] at ends
      exact absurd ends first.not_ends
  | cons groups term behind trees others first sequence ihFirst ihBehind =>
    -- Likewise, the other one has a first term.
    cases two with
    | nil =>
      rw [List.nil_append, List.append_assoc] at same
      rw [← same] at also
      exact absurd also first.not_ends
    | cons _ again _ _ _ leading following =>
      -- The first terms are the same, so the others begin at the same place.
      rw [List.append_assoc, List.append_assoc] at same
      obtain ⟨rfl, front⟩ :=
        ihFirst leading same (sequence.term_ends ends) (following.term_ends also)
      obtain ⟨rfl, back⟩ := ihBehind following (List.append_cancel_left same) ends also
      exact ⟨rfl, List.rel_append front back⟩
  -- What ends the alternatives ends the last of them.
  | last groups tokens trees only ih =>
    have ended : Phrase.Ends .sequence rest := fun next front => .inr (ends next front)
    cases two with
    | last _ _ _ again =>
      obtain ⟨cut, alike⟩ := ih again same ended fun next front => .inr (also next front)
      exact ⟨cut, .cons alike.chain .nil⟩
    | more _ again _ bar _ _ leading kind =>
      rw [List.append_assoc] at same
      obtain ⟨rfl, _⟩ := ih leading same ended (by simp [Phrase.Ends, kind])
      -- The bar cannot stand behind the last alternative.
      have next := List.append_cancel_left same
      subst next
      simpa [kind] using ends bar rfl
  | more groups tokens behind bar trees other first kind alternatives ihFirst ihBehind =>
    -- The first alternative ends in front of the bar.
    rw [List.append_assoc, List.cons_append] at same
    have ended : Phrase.Ends .sequence (bar :: (behind ++ rest)) := by simp [Phrase.Ends, kind]
    cases two with
    | last _ _ _ again =>
      -- The other reading has no further alternative, but the bar is left behind it.
      obtain ⟨rfl, _⟩ := ihFirst again same ended fun next front => .inr (also next front)
      have next := List.append_cancel_left same
      subst next
      simpa [kind] using also bar rfl
    | more _ again _ _ _ _ leading known following =>
      rw [List.append_assoc, List.cons_append] at same
      obtain ⟨rfl, front⟩ := ihFirst leading same ended (by simp [Phrase.Ends, known])
      -- Both bars stand behind the same alternative.
      obtain ⟨rfl, left⟩ := List.cons.inj (List.append_cancel_left same)
      obtain ⟨rfl, alike⟩ := ihBehind following left ends also
      obtain ⟨back, _⟩ := List.forall₂_cons.mp alike
      exact ⟨rfl, .cons (.choice front.chain back) .nil⟩
  | whole groups tokens tree body ih =>
    cases two with
    | whole _ _ _ again => exact ih again same ends also

/-- The trees of a list of tokens are the same up to the ways in which their sets are written. -/
theorem unique {tree other : PatternTree} (one : Reads .pattern groups tokens [tree])
    (two : Reads .pattern groups tokens [other]) : tree.Same other := by
  have nothing : Phrase.Ends .pattern [] := by simp [Phrase.Ends]
  obtain ⟨_, alike⟩ := one.unique_of_append two rfl nothing nothing
  exact (List.forall₂_cons.mp alike).1

end Reads

end RegexLens
