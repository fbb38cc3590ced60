import RegexLens.Proofs.Pattern.Segmentation
import RegexLens.Proofs.Pattern.TrailingAlternator

/-! A bar at the end of a pattern, as its backslashes tell it and as its last token does. -/

namespace RegexLens

/-- The number of backslashes at the end of a text. -/
def trailingBackslashes (text : Text) : Nat :=
  (text.reverse.takeWhile (· = '\\')).length

/-- A text ends in a bar that no backslash applies to, because the backslashes in front of it apply
to each other. -/
def EndsInBar (text : Text) : Prop :=
  ∃ front, text = front ++ ['|'] ∧ trailingBackslashes front % 2 = 0

/-- A token is a bar between alternatives, or it is a class without its end in which the last
character is a bar that no backslash applies to. -/
def Token.ShowsBar (token : Token) : Prop :=
  token.kind = .alternator ∨
    token.kind = .characterClass ∧ (ClassParts.split token.text).isClosed = false ∧
      ∃ front, (ClassParts.split token.text).contents = front ++ ['|'] ∧ EscapesPaired front

/-- A character in front counts only if everything behind it is a backslash as well. -/
theorem trailingBackslashes_cons (symbol : Char) (rest : Text) :
    trailingBackslashes (symbol :: rest) =
      if trailingBackslashes rest = rest.length ∧ symbol = '\\' then rest.length + 1
      else trailingBackslashes rest := by
  unfold trailingBackslashes
  -- Read from the end, the character in front comes last.
  rw [List.reverse_cons, List.takeWhile_append, List.length_reverse]
  by_cases all : (rest.reverse.takeWhile (· = '\\')).length = rest.length
  · by_cases backslash : symbol = '\\' <;> simp [all, backslash]
  · simp [all]

/-- A text has no more backslashes at its end than characters. -/
theorem trailingBackslashes_le (text : Text) : trailingBackslashes text ≤ text.length := by
  have within := (List.takeWhile_sublist (· = '\\') (l := text.reverse)).length_le
  rwa [List.length_reverse] at within

/-- The backslashes of a text are paired when an even number of them stands at its end. -/
theorem escapesPaired_iff (text : Text) :
    EscapesPaired text ↔ trailingBackslashes text % 2 = 0 := by
  -- The text is taken apart as escapes are read, two characters at a time.
  induction text using escapeInduction with
  | nil => simp [trailingBackslashes, EscapesPaired]
  | alone => simp [trailingBackslashes, EscapesPaired]
  | escape escaped rest ih =>
    have bounded := trailingBackslashes_le rest
    rw [EscapesPaired, ih, trailingBackslashes_cons, trailingBackslashes_cons escaped,
      List.length_cons]
    -- In front of nothing but backslashes, a pair counts as a whole or, if it ends otherwise, not.
    by_cases all : trailingBackslashes rest = rest.length ∧ escaped = '\\'
    · rw [if_pos all, if_pos ⟨rfl, rfl⟩]
      omega
    · rw [if_neg all, if_neg]
      omega
  | plain symbol rest other ih =>
    -- A character that is no backslash is counted in neither way.
    rw [escapesPaired_cons other, ih, trailingBackslashes_cons, if_neg fun both => other both.2]

/-- A text that ends in a bar is not empty. -/
theorem EndsInBar.ne_nil {text : Text} (ends : EndsInBar text) : text ≠ [] := by
  obtain ⟨front, rfl, -⟩ := ends
  simp

/-- Whether a text ends in a bar can be told from its last part, behind paired backslashes. -/
theorem endsInBar_append {first second : Text} (paired : EscapesPaired first)
    (solid : second ≠ []) : EndsInBar (first ++ second) ↔ EndsInBar second := by
  -- Both sides ask for a bar behind paired backslashes, so the pairing is carried over.
  simp only [EndsInBar, ← escapesPaired_iff]
  constructor
  · rintro ⟨front, whole, free⟩
    -- The second part is not empty, so the bar is its last character.
    rcases List.eq_nil_or_concat second with rfl | ⟨kept, last, rfl⟩
    · contradiction
    · rw [List.concat_eq_append, ← List.append_assoc] at whole
      obtain ⟨rfl, same⟩ := List.append_inj' whole rfl
      rw [escapesPaired_append paired] at free
      exact ⟨kept, by rw [List.concat_eq_append, same], free⟩
  · -- Paired backslashes in front pair with nothing behind them.
    rintro ⟨front, rfl, free⟩
    have joined := (escapesPaired_append paired front).mpr free
    exact ⟨first ++ front, (List.append_assoc _ _ _).symm, joined⟩

/-- What is dropped is a bar at the end that no backslash applies to, and nothing else. -/
theorem sansTrailingAlternator_cases (text : Text) :
    (EndsInBar text ∧ text = sansTrailingAlternator text ++ ['|']) ∨
      (¬ EndsInBar text ∧ sansTrailingAlternator text = text) := by
  by_cases ends : EndsInBar text
  · -- In front of the bar the backslashes are paired, so dropping starts anew at the bar.
    obtain ⟨front, rfl, even⟩ := ends
    have paired := (escapesPaired_iff front).mpr even
    refine .inl ⟨⟨front, rfl, even⟩, ?_⟩
    rw [sansTrailingAlternator_append paired (by simp), sansTrailingAlternator, List.append_nil]
  · refine .inr ⟨ends, ?_⟩
    -- Going on behind an escape or a character, the end stays the same.
    fun_induction sansTrailingAlternator text with
    | case1 => rfl
    -- A bar at the end is excluded.
    | case2 => exact absurd ⟨[], rfl, rfl⟩ ends
    | case3 escaped rest ih =>
      have paired : EscapesPaired ['\\', escaped] := trivial
      rw [ih fun inner => ends ((endsInBar_append paired inner.ne_nil).mpr inner)]
    | case4 symbol rest bar escape ih =>
      -- A single character is kept, whatever it is.
      by_cases alone : rest = []
      · rw [alone]
        rfl
      · have plain : symbol ≠ '\\' := by
          rintro rfl
          -- A backslash with something behind it would have been read as an escape.
          obtain ⟨next, more, same⟩ := List.exists_cons_of_ne_nil alone
          exact escape next more rfl same
        have paired : EscapesPaired [symbol] := (escapesPaired_cons plain).mpr trivial
        rw [ih fun inner => ends ((endsInBar_append paired alone).mpr inner)]

namespace Scanner

/-- A token behind which something is left does not end before its time. -/
theorem whole_of_next? {scanner after : Scanner} {token : Token}
    (read : scanner.next? = some (token, after)) (more : after.rest ≠ []) : token.Whole := by
  unfold next? at read
  -- One step of the scanner takes a token from the front of what is left.
  split at read
  · contradiction
  · rename_i first tail pending
    simp only [Option.some.injEq, Prod.mk.injEq] at read
    obtain ⟨rfl, rfl⟩ := read
    constructor
    · -- A backslash takes a character whenever there is one.
      intro kind alone
      obtain ⟨rfl, nothing⟩ := List.cons.inj alone
      cases tail with
      | nil => simp at more
      | cons second rest =>
        -- An escape takes at least one character behind its backslash.
        have taken : 0 < (tokenShape '\\' (second :: rest)).2 := escapeLength_pos second rest
        simp only [List.take_eq_nil_iff, List.cons_ne_nil, or_false] at nothing
        omega
    · -- A class without its end takes everything.
      intro kind
      have shaped : Token.Shaped ⟨(tokenShape first tail).1, scanner.position,
        first :: tail.take (tokenShape first tail).2⟩ := ⟨first, tail, rfl, rfl⟩
      have form := shaped.form
      rw [kind] at form
      obtain ⟨⟨_, starts⟩, _⟩ := form.of_characterClass
      obtain ⟨rfl, -⟩ := List.cons.inj starts
      -- The class is cut into its parts, of which the one behind it is empty without an end.
      have cuts := ClassParts.cuts_split tail
      have shape : (tokenShape '[' tail).2 = (ClassParts.split ('[' :: tail)).text.length - 1 := rfl
      rw [shape] at more ⊢
      rw [← ClassParts.split_text_cons, ClassParts.split_text]
      -- Either the class is closed, or it has taken all that was left.
      rcases cuts.ending with ⟨closed, -⟩ | ⟨-, nothing, -⟩
      · simp [ClassParts.isClosed, closed]
      · have size := congrArg List.length cuts.whole
        rw [nothing, List.append_nil, List.length_cons] at size
        rw [← size] at more
        simp at more

/-- All tokens but the last one do not end before their time. -/
theorem whole_of_mem_dropLast (scanner : Scanner) :
    ∀ token ∈ scanner.tokens.dropLast, token.Whole := by
  -- The recursion is that of the scanner, token by token.
  fun_induction tokens scanner with
  | case1 scanner ended => simp
  | case2 scanner token after read _ ih =>
    cases others : after.tokens with
    | nil => simp
    | cons next rest =>
      rw [others] at ih
      simp only [List.dropLast_cons_cons, List.forall_mem_cons]
      refine ⟨whole_of_next? read fun nothing => ?_, ih⟩
      -- The text of the next token is left behind this one.
      have texts := after.tokens_text
      rw [others, nothing, List.flatMap_cons, List.append_eq_nil_iff] at texts
      exact (after.tokens_shaped next (by simp [others])).nonempty texts.1

end Scanner

/-- In a pattern the backslashes of all tokens but the last one are paired. -/
theorem escapesPaired_of_cut {pattern : Text} {front : List Token} {last : Token}
    -- In front of the last token every token is whole, and a whole token pairs its backslashes.
    (cut : scan pattern = front ++ [last]) : EscapesPaired (front.flatMap Token.text) := by
  apply escapesPaired_flatMap
  intro token member
  have whole := (Scanner.start pattern).whole_of_mem_dropLast token
    (by rwa [← scan, cut, List.dropLast_concat])
  exact (whole.trailing (scan_shaped pattern token (by simp [cut, member]))).1

/-- Text without a bar does not end in one. -/
theorem not_endsInBar_of_tame {text : Text} (tame : ∀ symbol ∈ text, IsTame symbol) :
    ¬ EndsInBar text := by
  rintro ⟨front, rfl, -⟩
  exact (tame '|' (by simp)).2 rfl

/-- A class without its end is paired up to its contents, which decide how it ends. -/
theorem endsInBar_class {token : Token} (shaped : token.Shaped)
    (kind : token.kind = .characterClass)
    (unclosed : (ClassParts.split token.text).isClosed = false) :
    EndsInBar token.text ↔ EndsInBar (ClassParts.split token.text).contents := by
  have form := shaped.form
  rw [kind] at form
  obtain ⟨⟨tail, opens⟩, full⟩ := form.of_characterClass
  -- The parts of the class are its opening and its contents.
  have nothing : (ClassParts.split token.text).closing = [] := by
    simpa [ClassParts.isClosed] using unclosed
  have cut : (ClassParts.split token.text).opening ++ (ClassParts.split token.text).contents =
      token.text := by
    rw [← List.append_nil (_ ++ _), ← nothing]
    exact full
  -- The opening holds neither a backslash nor a bar.
  have tame : ∀ symbol ∈ (ClassParts.split token.text).opening, IsTame symbol := by
    rw [opens]
    rcases ClassParts.opening_eq tail with ⟨opening, _⟩ | ⟨opening, _⟩ <;> rw [opening] <;>
      simp [IsTame]
  by_cases empty : (ClassParts.split token.text).contents = []
  · -- Without contents there is only the opening, which holds no bar.
    rw [empty, List.append_nil] at cut
    rw [empty, ← cut]
    exact iff_of_false (not_endsInBar_of_tame tame) fun ends => ends.ne_nil rfl
  · -- What stands behind the opening decides.
    rw [← endsInBar_append (escapesPaired_of_tame tame) empty, cut]

/-- Whether a token ends in a bar is told by its kind, and for a class by its contents. -/
theorem endsInBar_iff_showsBar {token : Token} (shaped : token.Shaped) :
    EndsInBar token.text ↔ token.ShowsBar := by
  by_cases whole : token.Whole
  · have kept := (whole.trailing shaped).2
    by_cases bar : token.kind = .alternator
    · -- An alternator is a bar and nothing else.
      have form := shaped.form
      rw [bar] at form
      exact iff_of_true ⟨[], form.of_alternator, rfl⟩ (.inl bar)
    · -- Nothing is dropped from a whole token of another kind.
      rw [if_neg bar] at kept
      refine iff_of_false (fun ends => ?_) ?_
      · rcases sansTrailingAlternator_cases token.text with ⟨-, cut⟩ | ⟨other, -⟩
        · simp [kept] at cut
        · exact other ends
      · rintro (same | ⟨kind, unclosed, -⟩)
        · exact bar same
        · simp [whole.2 kind] at unclosed
  · rcases Classical.not_and_iff_not_or_not.mp whole with alone | unclosed
    · -- A backslash on its own is no bar.
      obtain ⟨kind, alone⟩ := Classical.not_imp.mp alone
      rw [Classical.not_not] at alone
      refine iff_of_false ?_ ?_
      · rintro ⟨front, same, -⟩
        have ending := congrArg List.getLast? (alone.symm.trans same)
        simp at ending
      · rintro (same | ⟨same, -⟩) <;> simp [kind] at same
    · obtain ⟨kind, unclosed⟩ := Classical.not_imp.mp unclosed
      -- Such a class is told by its contents.
      rw [Bool.not_eq_true] at unclosed
      rw [endsInBar_class shaped kind unclosed]
      simp [Token.ShowsBar, EndsInBar, kind, unclosed, escapesPaired_iff]

/-- The last bar of a pattern is dropped together with nothing else, exactly when no backslash in
front of it applies to it; and this is so exactly when the last token is an alternator, or a class
without its end of which the bar is the last member. So a pattern without faults loses something
exactly when its last token is an alternator. -/
theorem sansTrailingAlternator_agrees (pattern : Text) :
    ((∃ last : Char, last.utf8Size = 1 ∧ pattern = sansTrailingAlternator pattern ++ [last]) ↔
        EndsInBar pattern) ∧
      (¬ EndsInBar pattern → sansTrailingAlternator pattern = pattern) ∧
      (EndsInBar pattern ↔ ∃ last ∈ (scan pattern).getLast?, last.ShowsBar) ∧
      ((classify pattern).diagnostics = [] →
        (sansTrailingAlternator pattern ≠ pattern ↔
          ∃ last ∈ (scan pattern).getLast?, last.kind = .alternator)) := by
  -- The bar is dropped where there is one, and the last token shows whether there is.
  have texts := scan_text pattern
  have dropped : sansTrailingAlternator pattern ≠ pattern ↔ EndsInBar pattern := by
    rcases sansTrailingAlternator_cases pattern with ⟨ends, cut⟩ | ⟨other, kept⟩
    · -- Something was dropped, so the text is shorter than it was.
      refine iff_of_true (fun same => ?_) ends
      rw [same] at cut
      simp at cut
    · exact iff_of_false (Classical.not_not.mpr kept) other
  have shown : EndsInBar pattern ↔ ∃ last ∈ (scan pattern).getLast?, last.ShowsBar := by
    rcases List.eq_nil_or_concat (scan pattern) with none | ⟨front, last, tokens⟩
    · -- A pattern without tokens is empty, and it ends in nothing.
      rw [none] at texts ⊢
      refine iff_of_false (fun ends => ends.ne_nil texts.symm) (by simp)
    · rw [List.concat_eq_append] at tokens
      -- All tokens in front of the last one pair their backslashes, so the last one decides.
      have shaped := scan_shaped pattern last (by simp [tokens])
      rw [tokens, List.flatMap_append, List.flatMap_singleton] at texts
      rw [← texts, endsInBar_append (escapesPaired_of_cut tokens) shaped.nonempty, texts, tokens,
        endsInBar_iff_showsBar shaped]
      simp
  refine ⟨?_, ?_, shown, ?_⟩
  · rcases sansTrailingAlternator_cases pattern with ⟨ends, cut⟩ | ⟨other, kept⟩
    · -- The bar takes up one byte.
      exact iff_of_true ⟨'|', by decide, cut⟩ ends
    · refine iff_of_false ?_ other
      rintro ⟨last, -, same⟩
      rw [kept] at same
      simp at same
  · intro other
    exact Classical.not_not.mp (mt dropped.mp other)
  · intro accepted
    rw [dropped, shown]
    refine exists_congr fun last => and_congr_right fun ending => ?_
    -- A pattern without faults has no class without its end.
    have whole := (derives_of_accepted accepted).whole last (List.mem_of_getLast? ending)
    refine or_iff_left ?_
    rintro ⟨kind, unclosed, -⟩
    simp [whole.2 kind] at unclosed

end RegexLens
