import RegexLens.Proofs.Pattern.PendingAlternative
import RegexLens.Proofs.Pattern.Segmentation

/-! Text behind a pattern is read into its last two tokens at most, and leaves the others alone. -/

namespace RegexLens

variable {first : Char} {tail further : Text}

/-- A digit or a letter stands for itself. -/
theorem isOrdinary_of_isAlphanum {symbol : Char} (alphanumeric : symbol.isAlphanum = true) :
    isOrdinary symbol = true := by
  -- The characters that are not ordinary are marks, none of which is a digit or a letter.
  have marks : ['.', '?', '*', '+', '^', '$', '{', '[', '(', ')', '|', '\\'].all
      (fun mark => !mark.isAlphanum) = true := by decide
  rw [isOrdinary, Bool.not_eq_true', ← Bool.not_eq_true, List.contains_iff_mem]
  intro mark
  have other := List.all_eq_true.mp marks symbol mark
  simp [alphanumeric] at other

/-- In front of its closing brace an interval holds ordinary characters only. -/
theorem Repetition.ordinary {body : Text} {bounds : Bounds}
    (repetition : Repetition ('{' :: body) bounds) :
    ∃ inner, body = inner ++ ['}'] ∧ ∀ symbol ∈ inner, isOrdinary symbol = true := by
  have digits {number : Text} (spelled : IsNumber number) :
      ∀ symbol ∈ number, isOrdinary symbol = true := fun symbol member =>
    isOrdinary_of_isAlphanum (by simp [Char.isAlphanum, spelled.2 symbol member])
  have comma : isOrdinary ',' = true := by decide
  -- The bounds are digits, and the comma between them is ordinary too.
  cases repetition with
  | exact count number => exact ⟨count, rfl, digits number⟩
  | atLeast lower number =>
    refine ⟨lower ++ [','], by simp, List.forall_mem_append.mpr ⟨digits number, ?_⟩⟩
    simpa using comma
  | between lower upper lowerNumber upperNumber =>
    refine ⟨lower ++ ',' :: upper, by simp, List.forall_mem_append.mpr ⟨digits lowerNumber, ?_⟩⟩
    exact List.forall_mem_cons.mpr ⟨comma, digits upperNumber⟩

/-- A class that is cut off behind further text has not been closed before. -/
theorem classShape_reaches (reaches : tail.length < (tokenShape '[' (tail ++ further)).2) :
    tail.drop (tokenShape '[' tail).2 = [] := by
  have cuts := ClassParts.cuts_split tail
  have shape (text : Text) :
      (tokenShape '[' text).2 = (ClassParts.split ('[' :: text)).text.length - 1 := rfl
  rw [shape] at reaches ⊢
  have whole := congrArg List.length cuts.whole
  rw [List.length_cons, List.length_append] at whole
  rcases cuts.ending with ⟨closed, _⟩ | ⟨_, nothing, _⟩
  · -- A closed class is cut in the same way whatever follows it, so it lies within the tail.
    have longer := cuts.append closed further
    rw [List.cons_append] at longer
    have size : (ClassParts.split ('[' :: tail)).text.length =
        (ClassParts.split ('[' :: (tail ++ further))).text.length :=
      congrArg (fun parts => parts.text.length) (ClassParts.cuts_iff.mp longer)
    omega
  · -- Without an end the class takes up everything.
    rw [nothing, List.length_nil] at whole
    exact List.drop_of_length_le (by omega)

/-- An escape that goes on in further text leaves digits and letters behind when it is cut off. -/
theorem escapeShape_reaches (reaches : tail.length < (tokenShape '\\' (tail ++ further)).2) :
    ∀ symbol ∈ tail.drop (tokenShape '\\' tail).2, isOrdinary symbol = true := by
  have form := TokenForm.escape (tail ++ further)
  obtain ⟨sequence, text, decimal, other⟩ := form.escape_sequence
  obtain rfl : (tail ++ further).take (escapeLength (tail ++ further)) = sequence :=
    (List.cons.inj text).2
  have shape (text : Text) : (tokenShape '\\' text).2 = escapeLength text := rfl
  rw [shape] at reaches ⊢
  have front : (tail ++ further).take (escapeLength (tail ++ further)) =
      tail ++ further.take (escapeLength (tail ++ further) - tail.length) := by
    rw [List.take_append, List.take_of_length_le (Nat.le_of_lt reaches)]
  rw [front] at decimal other
  cases tail with
  | nil => simp
  | cons next rest =>
    intro symbol member
    -- The backslash keeps its first character, so the symbol stands behind that one.
    have positive := escapeLength_pos next rest
    obtain ⟨length, same⟩ := Nat.exists_eq_succ_of_ne_zero (Nat.ne_of_gt positive)
    rw [same, List.drop_succ_cons] at member
    have behind := List.mem_of_mem_drop member
    apply isOrdinary_of_isAlphanum
    cases numbered : startsNumbered (next :: rest ++
        further.take (escapeLength (next :: rest ++ further) - (next :: rest).length)) with
    | true => simp [Char.isAlphanum, decimal numbered symbol (by simp [behind])]
    | false => exact (other numbered).isAlphanum symbol (by simp [behind])

/-- A brace whose interval is completed by further text has only ordinary characters behind it. -/
theorem braceShape_reaches (reaches : tail.length < (tokenShape '{' (tail ++ further)).2) :
    ∀ symbol ∈ tail.drop (tokenShape '{' tail).2, isOrdinary symbol = true := by
  cases complete : intervalLength? (tail ++ further) with
  | none => simp [tokenShape, complete] at reaches
  | some length =>
    simp only [tokenShape, complete] at reaches
    rcases Nat.lt_or_ge tail.length length with inside | beyond
    · -- The tail ends within the interval, so it has no closing brace.
      obtain ⟨bounds, repetition⟩ := repetition_of_intervalLength? complete
      obtain ⟨inner, body, ordinary⟩ := repetition.ordinary
      have front : tail <+: inner := by
        have longer : tail <+: inner ++ ['}'] := by
          rw [← body, List.take_append, List.take_of_length_le (Nat.le_of_lt inside)]
          exact List.prefix_append _ _
        refine (List.prefix_concat_iff.mp longer).resolve_left fun whole => ?_
        -- Otherwise the whole interval would lie within the tail.
        have measured := intervalLength?_append repetition ((tail ++ further).drop length)
        rw [List.take_append_drop, complete, body, ← whole] at measured
        exact absurd (Option.some.inj measured) (Nat.ne_of_gt inside)
      exact fun symbol member => ordinary symbol (front.subset (List.mem_of_mem_drop member))
    · -- The interval is complete already, and only its lazy mark is missing.
      have within : intervalLength? tail = some length := by
        have same := @intervalLength?_take (tail ++ further) tail.length fun other found => by
          rw [complete] at found
          obtain rfl := Option.some.inj found
          exact beyond
        rwa [List.take_left, complete] at same
      have least : length ≤ withLazyMark length tail := by
        unfold withLazyMark
        split <;> omega
      have most : withLazyMark length (tail ++ further) ≤ length + 1 := by
        unfold withLazyMark
        split <;> omega
      simp only [tokenShape, within]
      rw [List.drop_of_length_le (by omega)]
      simp

/-- A group type that goes on in further text was a question mark alone, or nothing. -/
theorem groupShape_reaches (reaches : tail.length < (tokenShape '(' (tail ++ further)).2) :
    tail.drop (tokenShape '(' tail).2 = [] := by
  -- What is left behind the type is looked at for short texts, and longer ones are excluded.
  have shape (text : Text) : (tokenShape '(' text).2 = groupTypeLength text := rfl
  rw [shape] at reaches ⊢
  match tail with
  | [] => rfl
  | [next] =>
    -- Only a question mark can be followed by more of a group type.
    have mark : next = '?' := by
      apply by_contra
      intro other
      unfold groupTypeLength at reaches
      split at reaches <;> simp_all
    subst mark
    rfl
  -- Of two characters or more the type is known already.
  | _ :: _ :: _ =>
    unfold groupTypeLength at reaches
    split at reaches <;> simp at reaches

/-- When further text is read into a token, only ordinary characters have stood behind it. -/
theorem tokenShape_reaches (reaches : tail.length < (tokenShape first (tail ++ further)).2) :
    ∀ symbol ∈ tail.drop (tokenShape first tail).2, isOrdinary symbol = true := by
  have known := reaches
  have mark (lazy : tail.length < withLazyMark 0 (tail ++ further)) : tail = [] := by
    -- A lazy mark is one character, so nothing has stood behind the quantifier.
    unfold withLazyMark at lazy
    apply List.length_eq_zero_iff.mp
    split at lazy <;> omega
  -- The cases are those of the shape of a token, by its first character.
  unfold tokenShape at reaches
  split at reaches
  · simp [classShape_reaches known]
  · exact escapeShape_reaches known
  · simp [groupShape_reaches known]
  · simp [mark reaches]
  · simp [mark reaches]
  · simp [mark reaches]
  · exact braceShape_reaches known
  · -- A token of one character reaches no further text.
    contradiction
  · contradiction
  · contradiction
  · contradiction
  · contradiction
  · -- A run that goes on in further text has taken everything in front of it.
    intro symbol member
    have front : tail <+: (tail ++ further).takeWhile isOrdinary := by
      refine List.prefix_of_prefix_length_le (List.prefix_append _ _) (List.takeWhile_prefix _) ?_
      exact Nat.le_of_lt reaches
    exact List.all_eq_true.mp List.all_takeWhile symbol
      (front.subset (List.mem_of_mem_drop member))

namespace Scanner

variable {scanner after : Scanner} {token : Token}

/-- Where something other than a run of ordinary characters is left behind a token, the token stays
the same when further text is added. -/
theorem next?_append (read : scanner.next? = some (token, after))
    (special : ∃ symbol ∈ after.rest, isOrdinary symbol = false) :
    (⟨scanner.position, scanner.rest ++ further⟩ : Scanner).next? =
      some (token, ⟨after.position, after.rest ++ further⟩) := by
  unfold next? at read
  split at read
  · contradiction
  · rename_i first tail pending
    simp only [Option.some.injEq, Prod.mk.injEq] at read
    obtain ⟨rfl, rfl⟩ := read
    obtain ⟨symbol, member, special⟩ := special
    -- Otherwise the special character would have stood in the token.
    have within : (tokenShape first (tail ++ further)).2 ≤ tail.length := by
      apply Nat.le_of_not_lt
      intro reaches
      rw [tokenShape_reaches reaches symbol member] at special
      contradiction
    have shape := tokenShape_take within
    rw [List.take_left] at shape
    -- The token ends where it did, so its text and what is left are cut in the same way.
    rw [← shape] at within
    simp only [next?, pending, List.cons_append, ← shape, List.take_append_of_le_length within,
      List.drop_append_of_le_length within]

/-- Ordinary characters are one token at most. -/
theorem tokens_of_ordinary (ordinary : ∀ symbol ∈ scanner.rest, isOrdinary symbol = true) :
    scanner.tokens.length ≤ 1 := by
  obtain ⟨position, rest⟩ := scanner
  cases rest with
  | nil => simp [tokens_nil]
  | cons first tail =>
    obtain ⟨front, others⟩ := List.forall_mem_cons.mp ordinary
    -- The run of ordinary characters goes on to the end.
    have run : tail.takeWhile isOrdinary = tail := by
      simpa using @List.takeWhile_append_of_pos _ isOrdinary tail [] others
    have read : (⟨position, first :: tail⟩ : Scanner).next? =
        some (⟨.literal, position, first :: tail⟩, ⟨position + byteSize (first :: tail), []⟩) := by
      simp [next?, tokenShape_run front, run]
    simp [tokens_of_next? read, tokens_nil]

/-- All tokens but the last two are read again when further text is added. -/
theorem tokens_append_stable (scanner : Scanner) (further : Text) :
    scanner.tokens.dropLast.dropLast <+:
      (⟨scanner.position, scanner.rest ++ further⟩ : Scanner).tokens := by
  -- The recursion is that of the scanner, and further text is added to what is left.
  fun_induction tokens scanner with
  | case1 scanner ended => exact List.nil_prefix
  | case2 scanner token after read _ ih =>
    by_cases ordinary : ∀ symbol ∈ after.rest, isOrdinary symbol = true
    · -- The token is one of the last two.
      have few := tokens_of_ordinary ordinary
      have none : (token :: tokens after).dropLast.dropLast = [] := by
        apply List.length_eq_zero_iff.mp
        simp only [List.length_dropLast, List.length_cons]
        omega
      rw [none]
      exact List.nil_prefix
    · -- A special character is left, so this token is read again in the same way.
      simp only [not_forall, Bool.not_eq_true, exists_prop] at ordinary
      rw [tokens_of_next? (next?_append read ordinary)]
      cases later : tokens after with
      | nil => exact List.nil_prefix
      | cons next others =>
        cases others with
        | nil => exact List.nil_prefix
        | cons last rest =>
          rw [later] at ih
          exact (List.prefix_cons_inj token).mpr ih

end Scanner

/-- Text that is added behind a pattern can change the last two tokens only: all others are, with
their kinds, places and texts, the first tokens of the longer pattern. -/
theorem scan_append_stable (pattern further : Text) :
    (scan pattern).dropLast.dropLast <+: scan (pattern ++ further) :=
  (Scanner.start pattern).tokens_append_stable further

/-- The last digits of a code can make one token of the last two. -/
example : (scan ['\\', 'u', '0', '0']).length = 2 ∧
    (scan ['\\', 'u', '0', '0', '4', '1']).length = 1 := by
  cbv

end RegexLens
