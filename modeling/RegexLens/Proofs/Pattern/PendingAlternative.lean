import Mathlib.Tactic
import RegexLens.Proofs.Pattern.TrailingAlternator

/-! An alternator behind a pattern is one more token, and matching takes no notice of it. -/

namespace RegexLens

variable {first : Char} {tail : Text} {offset : Nat}

/-- A token that reaches a bar behind the pattern takes up everything. -/
theorem tokenForm_of_reaches (reaches : tail.length < (tokenShape first (tail ++ ['|'])).2) :
    TokenForm (tokenShape first (tail ++ ['|'])).1 (first :: (tail ++ ['|'])) := by
  -- Cutting off more than there is keeps everything.
  have whole : (tail ++ ['|']).take (tokenShape first (tail ++ ['|'])).2 = tail ++ ['|'] := by
    apply List.take_of_length_le
    rw [List.length_append]
    exact reaches
  have shaped : Token.Shaped ⟨(tokenShape first (tail ++ ['|'])).1, 0,
      first :: (tail ++ ['|']).take (tokenShape first (tail ++ ['|'])).2⟩ := ⟨first, _, rfl, rfl⟩
  have form := shaped.form
  rwa [whole] at form

/-- A closed class does not reach a bar behind the pattern. -/
theorem classShape_append_bar (closed : (ClassParts.split ('[' :: tail)).isClosed = true) :
    (tokenShape '[' (tail ++ ['|'])).2 ≤ tail.length := by
  -- The class is cut in the same way whatever follows it, and it lies within the tail.
  have cuts := ClassParts.cuts_split tail
  have longer := cuts.append (ClassParts.closing_of_isClosed closed) ['|']
  rw [List.cons_append] at longer
  have size : (ClassParts.split ('[' :: tail)).text.length =
      (ClassParts.split ('[' :: (tail ++ ['|']))).text.length :=
    congrArg (fun parts => parts.text.length) (ClassParts.cuts_iff.mp longer)
  have bounded := congrArg List.length cuts.whole
  simp only [List.length_cons, List.length_append] at bounded
  simp only [tokenShape, ← size]
  omega

/-- An escape reaches a bar behind the pattern only if it has nothing else to take. -/
theorem escapeShape_append_bar (applied : tail ≠ []) :
    (tokenShape '\\' (tail ++ ['|'])).2 ≤ tail.length := by
  apply Nat.le_of_not_lt
  intro reaches
  -- Behind its first character an escape holds digits and letters only.
  have form : TokenForm .escape ('\\' :: (tail ++ ['|'])) := tokenForm_of_reaches reaches
  obtain ⟨sequence, text, decimal, other⟩ := form.escape_sequence
  obtain rfl : tail ++ ['|'] = sequence := (List.cons.inj text).2
  obtain ⟨first, rest, rfl⟩ := List.exists_cons_of_ne_nil applied
  cases numbered : startsNumbered (first :: rest ++ ['|']) with
  | true => exact absurd (decimal numbered '|' (by simp)) (by decide)
  | false => exact absurd ((other numbered).isAlphanum '|' (by simp)) (by decide)

/-- A token that is no class and no escape does not reach a bar behind the pattern. -/
theorem plainShape_append_bar (bracket : first ≠ '[') (backslash : first ≠ '\\') :
    (tokenShape first (tail ++ ['|'])).2 ≤ tail.length := by
  apply Nat.le_of_not_lt
  -- Otherwise the bar would be a character of the token.
  intro reaches
  have form := tokenForm_of_reaches reaches
  -- Of the other tokens only the bar itself holds a bar, and it holds nothing else.
  have tame := form.tame ⟨?_, ?_, ?_⟩ '|' (by simp)
  · exact tame.2 rfl
  · intro kind
    rw [kind] at form
    obtain ⟨⟨rest, starts⟩, _⟩ := form.of_characterClass
    exact bracket (List.cons.inj starts).1
  · intro kind
    rw [kind] at form
    obtain ⟨sequence, starts⟩ := form.of_escape
    exact backslash (List.cons.inj starts).1
  · intro kind
    rw [kind] at form
    have alone := form.of_alternator
    simp at alone

/-- A bar behind the pattern is no part of a token that does not end before its time. -/
theorem tokenShape_append_bar (whole : Token.Whole ⟨(tokenShape first tail).1, offset,
      first :: tail.take (tokenShape first tail).2⟩) :
    tokenShape first (tail ++ ['|']) = tokenShape first tail ∧
      (tokenShape first tail).2 ≤ tail.length := by
  have within : (tokenShape first (tail ++ ['|'])).2 ≤ tail.length := by
    by_cases bracket : first = '['
    · subst bracket
      -- A whole class is closed in the pattern.
      have closed := whole.2 rfl
      rw [show (tokenShape '[' tail).2 = (ClassParts.split ('[' :: tail)).text.length - 1 from rfl,
        ← ClassParts.split_text_cons, ClassParts.split_text] at closed
      exact classShape_append_bar closed
    · by_cases backslash : first = '\\'
      · subst backslash
        -- A whole escape is more than a backslash.
        refine escapeShape_append_bar ?_
        rintro rfl
        exact whole.1 rfl rfl
      · exact plainShape_append_bar bracket backslash
  have same := tokenShape_take within
  rw [List.take_left] at same
  exact ⟨same.symm, same ▸ within⟩

/-- A bar behind whole tokens leaves the next one as it is. -/
theorem Scanner.next?_append_bar {scanner after : Scanner} {token : Token}
    (read : scanner.next? = some (token, after)) (whole : token.Whole) :
    (⟨scanner.position, scanner.rest ++ ['|']⟩ : Scanner).next? =
      some (token, ⟨after.position, after.rest ++ ['|']⟩) := by
  -- One step of the scanner takes a token from the front of what is left.
  unfold next? at read
  split at read
  · contradiction
  · rename_i first tail pending
    simp only [Option.some.injEq, Prod.mk.injEq] at read
    obtain ⟨rfl, rfl⟩ := read
    obtain ⟨shape, within⟩ := tokenShape_append_bar whole
    -- The token ends in front of the bar, so that the bar is left behind it.
    simp only [next?, pending, List.cons_append, shape, List.take_append_of_le_length within,
      List.drop_append_of_le_length within]

/-- Where a token is read, the others follow it. -/
theorem Scanner.tokens_of_next? {scanner after : Scanner} {token : Token}
    (read : scanner.next? = some (token, after)) : scanner.tokens = token :: after.tokens := by
  -- The scanner goes on from where the token has ended.
  rw [tokens]
  split
  · rename_i ended
    rw [read] at ended
    contradiction
  · rename_i same
    rw [read] at same
    obtain ⟨rfl, rfl⟩ := by simpa using same
    rfl

/-- Where nothing is left, there are no tokens. -/
theorem Scanner.tokens_nil (position : Nat) : (⟨position, []⟩ : Scanner).tokens = [] := by
  rw [tokens]
  rfl

/-- A bar behind whole tokens is one more token. -/
theorem Scanner.tokens_append_bar (scanner : Scanner)
    (whole : ∀ token ∈ scanner.tokens, token.Whole) :
    (⟨scanner.position, scanner.rest ++ ['|']⟩ : Scanner).tokens =
      scanner.tokens ++ [⟨.alternator, scanner.position + byteSize scanner.rest, ['|']⟩] := by
  -- The bar stays behind what is left, from one token to the next.
  fun_induction tokens scanner with
  | case1 scanner ended =>
    -- Behind the last token only the bar is left.
    have read : (⟨scanner.position, ['|']⟩ : Scanner).next? =
        some (⟨.alternator, scanner.position, ['|']⟩, ⟨scanner.position + 1, []⟩) := rfl
    rw [next?_eq_none ended, List.nil_append, tokens_of_next? read, tokens_nil]
    rfl
  | case2 scanner token after read _ ih =>
    obtain ⟨text, _, position, _⟩ := next?_spec read
    have next := next?_append_bar read (whole token (by simp))
    have others := ih fun other member => whole other (by simp [member])
    -- The bar stands behind the text of all tokens.
    rw [tokens_of_next? next, others, ← text, byteSize_append, position, Nat.add_assoc]
    rfl

/-- A bar behind a pattern without faults is one more token. -/
theorem scan_append_bar {pattern : Text} (derives : Derives .pattern (scan pattern)) :
    scan (pattern ++ ['|']) = scan pattern ++ [⟨.alternator, byteSize pattern, ['|']⟩] := by
  have tokens := (Scanner.start pattern).tokens_append_bar derives.whole
  rwa [show (Scanner.start pattern).position = 0 from rfl, Nat.zero_add] at tokens

/-- A pattern without faults whose last token is no bar is a sequence of full branches. -/
theorem Derives.branches_of_ends {tokens : List Token} (derives : Derives .pattern tokens)
    (solid : tokens ≠ []) (ends : ∀ last ∈ tokens.getLast?, last.kind ≠ .alternator) :
    Derives .branches tokens := by
  -- Of the three rules for patterns one is about nothing, and one ends with a bar.
  cases derives with
  | empty => contradiction
  | closed _ body => exact body
  | trailing front bar body kind => exact absurd kind (ends bar (by simp))

/-- A pattern without faults whose last token is no bar loses nothing. -/
theorem sansTrailingAlternator_of_ends {pattern : Text} (derives : Derives .pattern (scan pattern))
    (ends : ∀ last ∈ (scan pattern).getLast?, last.kind ≠ .alternator) :
    sansTrailingAlternator pattern = pattern := by
  have texts := scan_text pattern
  rcases List.eq_nil_or_concat (scan pattern) with none | ⟨front, last, tokens⟩
  · -- Without tokens there is no text that could lose anything.
    rw [none] at texts
    rw [← texts]
    rfl
  · -- What could be dropped is the last token, and it is no bar.
    rw [List.concat_eq_append] at tokens
    have kind := ends last (by simp [tokens])
    rw [sansTrailingAlternator_of_derives derives tokens, if_neg kind]
    rw [tokens, List.flatMap_append, List.flatMap_singleton] at texts
    exact texts

/-- Behind a pattern without faults that has a token and ends with no alternator, an alternator is
one more token, which is dropped again: the pattern stays without faults and has the same matches,
whatever the engine is. And from a pattern without faults that ends with one, exactly that token is
dropped, once and for all. -/
theorem highlight_append_bar (pattern : Text) (accepted : (classify pattern).diagnostics = []) :
    (pattern ≠ [] → (∀ last ∈ (scan pattern).getLast?, last.kind ≠ .alternator) →
      (classify (pattern ++ ['|'])).diagnostics = [] ∧
        scan (pattern ++ ['|']) = scan pattern ++ [⟨.alternator, byteSize pattern, ['|']⟩] ∧
        sansTrailingAlternator pattern = pattern ∧
        sansTrailingAlternator (pattern ++ ['|']) = pattern ∧
        (∀ engine text,
          highlightBy engine (pattern ++ ['|']) text = highlightBy engine pattern text) ∧
        ∀ text, highlight (pattern ++ ['|']) text = highlight pattern text) ∧
      ∀ bar, (scan pattern).getLast? = some bar → bar.kind = .alternator →
        let kept := sansTrailingAlternator pattern
        kept ≠ [] ∧ (classify kept).diagnostics = [] ∧ scan kept = (scan pattern).dropLast ∧
          (∀ last ∈ (scan kept).getLast?, last.kind ≠ .alternator) ∧
          sansTrailingAlternator kept = kept := by
  have derives := derives_of_accepted accepted
  constructor
  · -- The bar is one more token, behind which the derivation ends with the rule for a trailing bar.
    intro solid ends
    have tokens := scan_append_bar derives
    have some : scan pattern ≠ [] := by
      intro none
      apply solid
      rw [← scan_text pattern, none]
      rfl
    have longer : Derives .pattern (scan (pattern ++ ['|'])) := by
      rw [tokens]
      exact .trailing _ _ (derives.branches_of_ends some ends) rfl
    have valid := accepted_of_derives longer
    have same := sansTrailingAlternator_of_ends derives ends
    -- The bar is what is dropped of the longer pattern.
    have dropped : sansTrailingAlternator (pattern ++ ['|']) = pattern := by
      rw [sansTrailingAlternator_of_derives longer tokens, if_pos rfl, scan_text, List.append_nil]
    -- Both patterns pass the same tests, and the engine is given the same pattern.
    have marked (engine : Engine) (text : Text) :
        highlightBy engine (pattern ++ ['|']) text = highlightBy engine pattern text := by
      simp [highlightBy, Classification.isValid, solid, accepted, valid, same, dropped]
    exact ⟨valid, tokens, same, dropped, marked, marked hostEngine⟩
  · -- The tokens in front of the bar are branches, and these make a pattern of their own.
    intro bar last kind kept
    obtain ⟨front, tokens⟩ := List.getLast?_eq_some_iff.mp last
    have branches : Derives .branches front := by
      rw [tokens] at derives
      exact derives.branches_of_bar kind
    have texts : kept = front.flatMap Token.text := by
      have dropped := sansTrailingAlternator_of_derives derives tokens
      rwa [if_pos kind, List.append_nil] at dropped
    have rest : scan kept = front := by rw [texts, scan_front tokens]
    have closed : Derives .pattern (scan kept) := by
      rw [rest]
      exact .closed _ branches
    have ends : ∀ last ∈ (scan kept).getLast?, last.kind ≠ .alternator := by
      rw [rest]
      exact branches.ends (by decide)
    refine ⟨?_, accepted_of_derives closed, ?_, ends, sansTrailingAlternator_of_ends closed ends⟩
    · -- Branches have tokens, so the text that is kept is not empty.
      intro none
      apply branches.ne_nil (.inr (.inr rfl))
      rw [← rest, none]
      exact Scanner.tokens_nil 0
    · rw [rest, tokens, List.dropLast_concat]

/-- Of three bars only the last one is dropped: the first stands in a group, and the second in
a class. -/
theorem highlight_append_bar_nested :
    let kept : Text := ['(', 'a', '|', ')', '[', '|', ']']
    (classify kept).diagnostics = [] ∧ (classify (kept ++ ['|'])).diagnostics = [] ∧
      scan (kept ++ ['|']) = scan kept ++ [⟨.alternator, 7, ['|']⟩] ∧
      (∀ engine text, highlightBy engine (kept ++ ['|']) text = highlightBy engine kept text) ∧
      (∀ text, highlight (kept ++ ['|']) text = highlight kept text) ∧
      sansTrailingAlternator (kept ++ ['|']) ≠ [] ∧
      scan (sansTrailingAlternator (kept ++ ['|'])) = (scan (kept ++ ['|'])).dropLast := by
  intro kept
  have scanned : scan kept = [⟨.groupOpen, 0, ['(']⟩, ⟨.literal, 1, ['a']⟩, ⟨.alternator, 2, ['|']⟩,
      ⟨.groupClose, 3, [')']⟩, ⟨.characterClass, 4, ['[', '|', ']']⟩] := by cbv
  have accepted : (classify kept).diagnostics = [] := by cbv
  have solid : kept ≠ [] := List.cons_ne_nil _ _
  have size : byteSize kept = 7 := rfl
  clear_value kept
  -- The last token is a class, and so the pattern has no bar at its end.
  have ends : ∀ last ∈ (scan kept).getLast?, last.kind ≠ .alternator := by simp [scanned]
  obtain ⟨valid, tokens, -, -, byEngine, same⟩ := (highlight_append_bar kept accepted).1 solid ends
  rw [size] at tokens
  -- With the bar the other part of the result applies.
  have last : (scan (kept ++ ['|'])).getLast? = some ⟨.alternator, 7, ['|']⟩ := by
    rw [tokens, List.getLast?_concat]
  obtain ⟨full, -, front, -, -⟩ := (highlight_append_bar (kept ++ ['|']) valid).2 _ last rfl
  exact ⟨accepted, valid, tokens, byEngine, same, full, front⟩

end RegexLens
