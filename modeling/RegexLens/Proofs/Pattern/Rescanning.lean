import RegexLens.Proofs.Host.Spelling
import RegexLens.Proofs.Pattern.ClassExtent

/-! What stands behind a token has no influence on it, once the token is cut off in front. -/

namespace RegexLens

/-- A run that is taken whole is the same run when the text is cut off behind it. -/
theorem takeWhile_take {test : Char → Bool} {text : Text} {count : Nat}
    (within : (text.takeWhile test).length ≤ count) :
    (text.take count).takeWhile test = text.takeWhile test := by
  rw [← List.take_takeWhile, List.take_of_length_le within]

/-- An octal code is the same when the text is cut off behind it. -/
theorem octalLength_take {text : Text} {count : Nat} (within : octalLength text ≤ count) :
    octalLength (text.take count) = octalLength text := by
  cases text with
  | nil => simp
  | cons first rest =>
    cases count with
    | zero =>
      -- Nothing is kept of a text that starts no code.
      rw [Nat.le_zero.mp within]
      rfl
    | succ count =>
      -- The digits behind the first one are a run of limited length.
      have run (limit : Nat) (short : 1 + ((rest.take limit).takeWhile isOctalDigit).length ≤ count + 1) :
          ((rest.take count).take limit).takeWhile isOctalDigit =
            (rest.take limit).takeWhile isOctalDigit := by
        rw [List.take_take, Nat.min_comm, ← List.take_take]
        exact takeWhile_take (by omega)
      rw [List.take_succ_cons]
      simp only [octalLength] at within ⊢
      -- The first digit says how many digits the code can have.
      split
      · rename_i low
        rw [if_pos low] at within
        rw [run 2 within]
      · rename_i low
        rw [if_neg low] at within
        split
        · rename_i high
          rw [if_pos high] at within
          rw [run 1 within]
        · rfl

/-- Hexadecimal digits at the front are those of the text when it is cut off behind them. -/
theorem startsWithHex_take {length count : Nat} {text : Text} :
    startsWithHex length (text.take count) = true ↔
      startsWithHex length text = true ∧ length ≤ count := by
  -- Both sides speak of the digits at the front, which are cut off once or twice.
  simp only [startsWithHex_iff, IsHexCode, List.take_take]
  constructor
  · -- Enough digits are left, so the cut lies behind them.
    rintro ⟨whole, hex⟩
    rw [List.length_take] at whole
    have long : length ≤ count := by omega
    rw [Nat.min_eq_left long] at hex
    exact ⟨⟨by rw [List.length_take]; omega, hex⟩, long⟩
  · rintro ⟨⟨whole, hex⟩, long⟩
    rw [Nat.min_eq_left long]
    exact ⟨whole, hex⟩

/-- What a backslash applies to is the same when the text is cut off behind it. -/
theorem sequenceLength_take {text : Text} {count : Nat} (within : sequenceLength text ≤ count) :
    -- The letter at the front says how long the sequence is.
    sequenceLength (text.take count) = sequenceLength text := by
  cases text with
  | nil => simp
  | cons first rest =>
    cases count with
    | zero => exact absurd within (Nat.not_le_of_gt (sequenceLength_pos (List.cons_ne_nil _ _)))
    | succ count =>
      rw [List.take_succ_cons]
      by_cases byte : first = 'x'
      · subst byte
        simp only [sequenceLength] at within ⊢
        -- Without the digits in the text there are none in its front part either.
        by_cases hex : startsWithHex 2 rest = true
        · rw [if_pos hex] at within ⊢
          rw [if_pos (startsWithHex_take.mpr ⟨hex, by omega⟩)]
        · rw [if_neg hex, if_neg fun found => hex (startsWithHex_take.mp found).1]
      · -- Four digits are cut off in the same way as two.
        by_cases unit : first = 'u'
        · subst unit
          simp only [sequenceLength] at within ⊢
          by_cases hex : startsWithHex 4 rest = true
          · rw [if_pos hex] at within ⊢
            rw [if_pos (startsWithHex_take.mpr ⟨hex, by omega⟩)]
          · rw [if_neg hex, if_neg fun found => hex (startsWithHex_take.mp found).1]
        · by_cases control : first = 'c'
          · subst control
            -- Only the letter behind it counts.
            cases rest with
            | nil => simp
            | cons letter more =>
              cases count with
              -- The letter is cut off, so it did not belong to the sequence.
              | zero =>
                simp only [sequenceLength] at within ⊢
                split at within
                · omega
                · rename_i other
                  simp [other]
              | succ count => simp [sequenceLength]
          · -- Any other character stands for itself, and it is kept.
            simp [sequenceLength, control]

/-- An escape is the same when the pattern is cut off behind it. -/
theorem escapeLength_take {tail : Text} {count : Nat} (within : escapeLength tail ≤ count) :
    escapeLength (tail.take count) = escapeLength tail := by
  -- Whether an octal code, a number or a sequence follows is told by the first character.
  cases tail with
  | nil => simp
  | cons first rest =>
    by_cases zero : first = '0'
    · subst zero
      cases count with
      | zero => simp [escapeLength] at within
      | succ count =>
        rw [List.take_succ_cons]
        simp only [escapeLength] at within ⊢
        rw [octalLength_take (by omega)]
    · have same (text : Text) : escapeLength (first :: text) =
          if first.isDigit then (digitRun (first :: text)).length else sequenceLength (first :: text) := by
        simp [escapeLength]
      rw [same] at within ⊢
      cases count with
      | zero =>
        -- What is behind a backslash takes one character at least.
        exfalso
        split at within
        · rename_i digit
          simp [digitRun, digit] at within
        · exact absurd within (Nat.not_le_of_gt (sequenceLength_pos (List.cons_ne_nil _ _)))
      | succ count =>
        -- A number is as long as its digits, and a sequence as long as its first letter asks for.
        rw [List.take_succ_cons, same, ← List.take_succ_cons]
        split
        · rename_i digit
          rw [if_pos digit] at within
          rw [digitRun, takeWhile_take within, ← digitRun]
        · rename_i letter
          rw [if_neg letter] at within
          rw [sequenceLength_take within]

/-- A group type is the same when the pattern is cut off behind it. -/
theorem groupTypeLength_take {tail : Text} {count : Nat} (within : groupTypeLength tail ≤ count) :
    groupTypeLength (tail.take count) = groupTypeLength tail := by
  -- The cases are those of the types: three are known, one is not, and none can follow.
  unfold groupTypeLength at within
  split at within
  · obtain ⟨more, rfl⟩ := Nat.exists_eq_add_of_le within
    simp [Nat.add_comm 2 more, groupTypeLength]
  · obtain ⟨more, rfl⟩ := Nat.exists_eq_add_of_le within
    simp [Nat.add_comm 2 more, groupTypeLength]
  · obtain ⟨more, rfl⟩ := Nat.exists_eq_add_of_le within
    simp [Nat.add_comm 2 more, groupTypeLength]
  · -- An unknown type is a question mark, whether anything follows it or not.
    rename_i rest plain ahead notAhead
    obtain ⟨more, rfl⟩ := Nat.exists_eq_add_of_le within
    rw [Nat.add_comm, List.take_succ_cons]
    cases rest with
    | nil => simp
    -- What stands behind the question mark decides about the type, unless it is cut off.
    | cons next others =>
      cases more with
      | zero =>
        unfold groupTypeLength
        simp_all
      | succ more =>
        unfold groupTypeLength
        simp_all
  · -- No question mark stands at the front, and so none in what is kept.
    rename_i none
    cases tail with
    | nil => simp
    | cons next others =>
      cases count with
      | zero =>
        unfold groupTypeLength
        simp_all
      | succ count =>
        unfold groupTypeLength
        simp_all

/-- The pattern and the host agree on where an interval ends. -/
theorem intervalLength?_eq (tail : Text) :
    intervalLength? tail = (readBounds? tail).map Prod.snd := by
  simp only [intervalLength?, readBounds?]
  -- The two agree once the digits and what follows them are known.
  generalize tail.drop (digitRun tail).length = remaining
  generalize digitRun tail = lower
  cases lower with
  | nil => rfl
  | cons digit others =>
    cases remaining with
    | nil => rfl
    | cons next rest =>
      -- Behind the digits there is a brace, a comma, or something else.
      by_cases closes : next = '}'
      · simp [closes]
      · by_cases between : next = ','
        · subst between
          simp only [↓Char.isValue, List.length_cons]
          generalize rest.drop (digitRun rest).length = behind
          cases behind with
          | nil => rfl
          -- Behind a comma the digits are followed by a brace or not.
          | cons last more =>
            by_cases ends : last = '}'
            · simp [ends]
            · simp [ends]
        · simp [closes, between]

/-- A complete interval is measured up to its closing brace. -/
theorem intervalLength?_append {front : Text} {bounds : Bounds}
    (repetition : Repetition ('{' :: front) bounds) (rest : Text) :
    intervalLength? (front ++ rest) = some front.length := by
  rw [intervalLength?_eq, Lexeme.readBounds?_repetition repetition]
  rfl

/-- The interval at the front of a text is the same when the text is cut off behind it. -/
theorem intervalLength?_take {tail : Text} {count : Nat}
    (within : ∀ length, intervalLength? tail = some length → length ≤ count) :
    intervalLength? (tail.take count) = intervalLength? tail := by
  -- An interval at the front of some text is one whatever follows it.
  have extend {text : Text} {length : Nat} (complete : intervalLength? text = some length)
      (rest : Text) : intervalLength? (text.take length ++ rest) = some length := by
    obtain ⟨bounds, repetition⟩ := repetition_of_intervalLength? complete
    have measured := intervalLength?_append repetition (text.drop length)
    rw [List.take_append_drop, complete] at measured
    have short := Option.some.inj measured
    have again := intervalLength?_append repetition rest
    rwa [← short] at again
  cases complete : intervalLength? tail with
  | some length =>
    have whole := within length complete
    have found := extend complete ((tail.take count).drop length)
    rwa [← Nat.min_eq_left whole, ← List.take_take, Nat.min_eq_left whole,
      List.take_append_drop] at found
  | none =>
    -- A complete interval in the front part would be one of the whole text.
    cases front : intervalLength? (tail.take count) with
    | none => rfl
    | some length =>
      have found := extend front ((tail.take count).drop length ++ tail.drop count)
      rw [← List.append_assoc, List.take_append_drop, List.take_append_drop, complete] at found
      contradiction

/-- A lazy mark is found again when the text is cut off behind it. -/
theorem withLazyMark_take {tail : Text} {length count : Nat}
    (within : withLazyMark length tail ≤ count) :
    withLazyMark length (tail.take count) = withLazyMark length tail := by
  have behind : (tail.take count).drop length = (tail.drop length).take (count - length) :=
    List.drop_take
  unfold withLazyMark at within ⊢
  rw [behind, List.head?_take]
  -- The mark is part of the token, so it is kept.
  by_cases marked : (tail.drop length).head? = some '?'
  · rw [if_pos marked] at within
    have room : count - length ≠ 0 := by omega
    rw [if_neg room]
  · -- Where no mark stands in the text, there is none in its front part.
    rw [if_neg marked, if_neg]
    split
    · simp
    · exact marked

/-- A class is the same when the pattern is cut off behind it. -/
theorem split_text_take {tail : Text} {count : Nat}
    (within : (ClassParts.split ('[' :: tail)).text.length - 1 ≤ count) :
    (ClassParts.split ('[' :: tail.take count)).text = (ClassParts.split ('[' :: tail)).text := by
  have cuts := ClassParts.cuts_split tail
  generalize ClassParts.split ('[' :: tail) = parts at within cuts ⊢
  have whole := congrArg List.length cuts.whole
  rw [List.length_cons, List.length_append] at whole
  rcases cuts.ending with ⟨closed, _⟩ | ⟨_, nothing, _⟩
  · -- What is left behind the class is cut off, and the class stays as it is.
    have kept : '[' :: tail.take count = parts.text ++ parts.after.take (count + 1 - parts.text.length) := by
      rw [← List.take_succ_cons, cuts.whole, List.take_append,
        List.take_of_length_le (by omega : parts.text.length ≤ count + 1)]
    have found := cuts.kept closed (parts.after.take (count + 1 - parts.text.length))
    rw [← kept] at found
    rw [← ClassParts.cuts_iff.mp found]
    rfl
  · -- Without an end the class takes up everything.
    rw [nothing, List.length_nil] at whole
    rw [List.take_of_length_le (by omega), ← ClassParts.cuts_iff.mp cuts]

/-- A token has the same shape when the pattern is cut off behind it. -/
theorem tokenShape_take {first : Char} {tail : Text} {count : Nat}
    (within : (tokenShape first tail).2 ≤ count) :
    tokenShape first (tail.take count) = tokenShape first tail := by
  -- The cases are those of the shape of a token, by its first character.
  unfold tokenShape at within ⊢
  split
  · simp only at within ⊢
    rw [split_text_take within]
  · rw [escapeLength_take within]
  · rw [groupTypeLength_take within]
  · rw [withLazyMark_take within]
  · rw [withLazyMark_take within]
  · rw [withLazyMark_take within]
  · -- The interval ends in front of its lazy mark.
    simp only at within
    have interval : intervalLength? (tail.take count) = intervalLength? tail := by
      apply intervalLength?_take
      intro length complete
      rw [complete] at within
      refine Nat.le_trans ?_ within
      simp only [withLazyMark]
      split <;> omega
    rw [interval]
    -- With or without an interval, the lazy mark is looked for at the same place.
    cases complete : intervalLength? tail with
    | none => rfl
    | some length =>
      rw [complete] at within
      simp only at within ⊢
      rw [withLazyMark_take within]
  · rfl
  · rfl
  · rfl
  · rfl
  · rfl
  · simp only at within ⊢
    rw [takeWhile_take within]

/-- The next token is the same when the text is cut off somewhere behind it. -/
theorem Scanner.next?_front {scanner after : Scanner} {token : Token}
    (read : scanner.next? = some (token, after)) {kept dropped : Text}
    (rest : kept ++ dropped = after.rest) :
    (⟨scanner.position, token.text ++ kept⟩ : Scanner).next? =
      some (token, ⟨after.position, kept⟩) := by
  -- One step takes the first character and as many more as the shape of the token says.
  unfold Scanner.next? at read
  split at read
  · contradiction
  · rename_i first tail pending
    simp only [Option.some.injEq, Prod.mk.injEq] at read
    obtain ⟨rfl, rfl⟩ := read
    dsimp only at rest
    generalize within : (tokenShape first tail).2 = length at rest ⊢
    -- What is kept of the tail is a front part of it that reaches behind the token.
    have front : tail.take length ++ kept = tail.take (length + kept.length) := by
      rw [List.take_add, ← rest, List.take_left]
    -- The shape of the token depends on nothing behind it.
    have shape : tokenShape first (tail.take (length + kept.length)) = tokenShape first tail :=
      tokenShape_take (by omega)
    have behind : (tail.take (length + kept.length)).drop length = kept := by
      rw [List.drop_take, ← rest, Nat.add_sub_cancel_left, List.take_left]
    have taken : (tail.take (length + kept.length)).take length = tail.take length := by
      rw [List.take_take, Nat.min_eq_left (Nat.le_add_right _ _)]
    -- The token and what is left are cut from the kept text as from the whole one.
    simp only [Scanner.next?, List.cons_append, front, shape, within, behind, taken]

/-- The tokens at the front of a pattern are those of the pattern cut off behind them. -/
theorem scan_front {pattern : Text} {front back : List Token} (cut : scan pattern = front ++ back) :
    scan (front.flatMap Token.text) = front := by
  -- The scanner stands at the same place in both patterns, and reads the same token there.
  have general (front : List Token) (scanner : Scanner) (cut : scanner.tokens = front ++ back) :
      (⟨scanner.position, front.flatMap Token.text⟩ : Scanner).tokens = front := by
    -- The tokens are read from the front, and the scanner moves on by one token each time.
    induction front generalizing scanner with
    | nil =>
      rw [Scanner.tokens]
      rfl
    | cons token rest ih =>
      rw [Scanner.tokens] at cut
      split at cut
      · contradiction
      · rename_i next after read
        obtain ⟨rfl, others⟩ : next = token ∧ after.tokens = rest ++ back := by simpa using cut
        -- What the scanner has left is the text of the tokens to come.
        have remaining : rest.flatMap Token.text ++ back.flatMap Token.text = after.rest := by
          rw [← List.flatMap_append, ← others, Scanner.tokens_text]
        have again := Scanner.next?_front read remaining
        rw [List.flatMap_cons, Scanner.tokens]
        split
        · rename_i ended
          rw [again] at ended
          contradiction
        · rename_i same
          rw [again] at same
          obtain ⟨rfl, rfl⟩ := by simpa using same
          rw [ih after others]
  exact general front (.start pattern) cut

end RegexLens
