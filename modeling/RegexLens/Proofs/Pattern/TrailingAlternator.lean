import RegexLens.Highlight
import RegexLens.Proofs.Pattern.Acceptance
import RegexLens.Proofs.Pattern.ClassMeaning
import RegexLens.Proofs.Pattern.Numbered
import RegexLens.Proofs.Pattern.Rescanning

/-! A last alternator is dropped as a whole token, and what is left of a pattern is a pattern. -/

namespace RegexLens

/-- Neither a backslash nor the mark between alternatives. -/
def IsTame (symbol : Char) : Prop :=
  symbol ≠ '\\' ∧ symbol ≠ '|'

/-- Text without a backslash leaves none on its own. -/
theorem escapesPaired_of_tame {text : Text} (tame : ∀ symbol ∈ text, IsTame symbol) :
    EscapesPaired text := by
  -- A character that is no backslash leaves the pairing behind it alone.
  induction text with
  | nil => trivial
  | cons first rest ih =>
    exact (escapesPaired_cons (tame first (by simp)).1).mpr
      (ih fun symbol member => tame symbol (by simp [member]))

/-- Backslashes that are paired in two texts are paired when these are joined. -/
theorem EscapesPaired.append {first second : Text} (one : EscapesPaired first)
    (other : EscapesPaired second) : EscapesPaired (first ++ second) :=
  (escapesPaired_append one second).mpr other

/-- Tokens that each pair their backslashes pair them all. -/
theorem escapesPaired_flatMap {tokens : List Token}
    (paired : ∀ token ∈ tokens, EscapesPaired token.text) :
    EscapesPaired (tokens.flatMap Token.text) := by
  -- Paired texts put together are paired, which carries over from token to token.
  induction tokens with
  | nil => trivial
  | cons token rest ih =>
    rw [List.flatMap_cons]
    exact (paired token (by simp)).append (ih fun other member => paired other (by simp [member]))

/-- Text that is cut behind a paired backslash loses its last alternator in the second part. -/
theorem sansTrailingAlternator_append {first second : Text} (paired : EscapesPaired first)
    (solid : second ≠ []) :
    sansTrailingAlternator (first ++ second) = first ++ sansTrailingAlternator second := by
  -- The first part is taken apart as escapes are read, and the recursion follows.
  induction first using escapeInduction with
  | nil => rfl
  -- A backslash alone at the end of the first part is excluded.
  | alone => exact paired.elim
  | escape escaped rest ih =>
    rw [List.cons_append, List.cons_append, sansTrailingAlternator, ih paired]
    rfl
  | plain symbol rest other ih =>
    -- Behind each character something is left, so the last character is never in the first part.
    have more : rest ++ second ≠ [] := List.append_ne_nil_of_right_ne_nil _ solid
    rw [List.cons_append, sansTrailingAlternator.eq_4, ih ((escapesPaired_cons other).mp paired)]
    · rfl
    · intro _ empty
      exact more empty
    · intro _ _ same
      exact absurd same other

/-- Text without a bar has no last alternator to lose. -/
theorem sansTrailingAlternator_of_tame {text : Text} (tame : ∀ symbol ∈ text, IsTame symbol) :
    sansTrailingAlternator text = text := by
  -- No character is one of those that the recursion treats apart.
  induction text with
  | nil => rfl
  | cons first rest ih =>
    have known := tame first (by simp)
    rw [sansTrailingAlternator.eq_4, ih fun symbol member => tame symbol (by simp [member])]
    · intro same
      exact absurd same known.2
    · intro _ _ same
      exact absurd same known.1

/-- A digit or a letter is neither a backslash nor a bar. -/
theorem isTame_of_isAlphanum {symbol : Char} (alphanumeric : symbol.isAlphanum = true) :
    IsTame symbol := by
  -- Neither of the two is a digit or a letter.
  constructor
  · rintro rfl
    exact absurd alphanumeric (by decide)
  · rintro rfl
    exact absurd alphanumeric (by decide)

/-- A decimal digit is neither a backslash nor a bar. -/
theorem isTame_of_isDigit {symbol : Char} (digit : symbol.isDigit = true) : IsTame symbol :=
  isTame_of_isAlphanum (by simp [Char.isAlphanum, digit])

/-- A quantifier holds digits and marks of its own. -/
theorem RepeatsAs.tame {text : Text} {bounds : Bounds} {isLazy : Bool}
    (repeats : RepeatsAs text bounds isLazy) : ∀ symbol ∈ text, IsTame symbol := by
  obtain ⟨body, repetition, rfl⟩ := repeats
  -- What is no digit is one of a few characters.
  have marks : ∀ symbol ∈ ['?', '*', '+', '{', '}', ','], IsTame symbol := by
    simp [IsTame]
  intro symbol member
  rcases List.mem_append.mp member with inside | mark
  · -- The body holds a mark, or braces with digits and a comma between them.
    cases repetition with
    | optional => exact marks symbol (by simp_all)
    | any => exact marks symbol (by simp_all)
    | some => exact marks symbol (by simp_all)
    | exact count number =>
      simp only [List.mem_cons, List.mem_append, List.not_mem_nil, or_false] at inside
      rcases inside with rfl | digit | rfl
      · exact marks _ (by simp)
      · exact isTame_of_isDigit (number.2 _ digit)
      · exact marks _ (by simp)
    | atLeast lower number =>
      simp only [List.mem_cons, List.mem_append, List.not_mem_nil, or_false] at inside
      rcases inside with rfl | digit | rfl | rfl
      · exact marks _ (by simp)
      · exact isTame_of_isDigit (number.2 _ digit)
      · exact marks _ (by simp)
      · exact marks _ (by simp)
    | between lower upper lowerNumber upperNumber =>
      simp only [List.mem_cons, List.mem_append, List.not_mem_nil, or_false] at inside
      rcases inside with rfl | digit | rfl | digit | rfl
      · exact marks _ (by simp)
      · exact isTame_of_isDigit (lowerNumber.2 _ digit)
      · exact marks _ (by simp)
      · exact isTame_of_isDigit (upperNumber.2 _ digit)
      · exact marks _ (by simp)
  · -- The mark of a lazy quantifier is a question mark.
    split at mark
    · exact marks symbol (by simp_all)
    · simp at mark

/-- Only classes, escapes and alternators hold backslashes and bars. -/
theorem TokenForm.tame {kind : TokenKind} {text : Text} (form : TokenForm kind text)
    (other : kind ≠ .characterClass ∧ kind ≠ .escape ∧ kind ≠ .alternator) :
    ∀ symbol ∈ text, IsTame symbol := by
  -- A character of a literal is none of the marks.
  have ordinary {symbol : Char} (known : isOrdinary symbol = true) : IsTame symbol := by
    constructor
    · rintro rfl
      exact absurd known (by decide)
    · rintro rfl
      exact absurd known (by decide)
  have anchors : ∀ symbol ∈ ['(', ')', '?', ':', '=', '!', '^', '$', '.', '{'], IsTame symbol := by
    simp [IsTame]
  intro symbol member
  -- The kinds are those of the shape, three of which are excluded.
  cases kind with
  | characterClass => exact absurd rfl other.1
  | escape => exact absurd rfl other.2.1
  | alternator => exact absurd rfl other.2.2
  | groupOpen =>
    refine anchors symbol ?_
    rcases form.of_groupOpen with rfl | rfl | rfl | rfl | rfl <;> simp at member <;>
      rcases member with rfl | rfl | rfl <;> simp
  | groupClose =>
    rw [form.of_groupClose] at member
    exact anchors symbol (by simp_all)
  | quantifier =>
    -- A quantifier is known by its bounds.
    obtain ⟨bounds, isLazy, repeats⟩ := repeatsAs_of_form form
    exact repeats.tame symbol member
  | anchor => rcases form.of_anchor with rfl | rfl <;> exact anchors symbol (by simp_all)
  | dot =>
    cases form
    exact anchors symbol (by simp_all)
  | literal =>
    cases form with
    | brace => exact anchors symbol (by simp_all)
    -- A literal is a brace alone, or a run of ordinary characters.
    | run first tail known =>
      rcases List.mem_cons.mp member with rfl | later
      · exact ordinary known
      · exact ordinary (List.all_eq_true.mp List.all_takeWhile symbol later)

/-- A token that does not end before its time: no lone backslash, and no class without its end. -/
def Token.Whole (token : Token) : Prop :=
  (token.kind = .escape → token.text ≠ ['\\']) ∧
    (token.kind = .characterClass → (ClassParts.split token.text).isClosed = true)

/-- Tokens that the grammar derives do not end before their time. -/
theorem Derives.whole {phrase : Phrase} {tokens : List Token} (derives : Derives phrase tokens) :
    ∀ token ∈ tokens, token.Whole := by
  -- Only escapes and classes have something to show.
  have other (token : Token) (kind : token.kind ≠ .escape ∧ token.kind ≠ .characterClass) :
      token.Whole := ⟨fun same => absurd same kind.1, fun same => absurd same kind.2⟩
  -- The derivation puts tokens together, and each rule names the kind of its own tokens.
  induction derives with
  | literal token kind | dot token kind | anchor token kind =>
    exact List.forall_mem_singleton.mpr (other token (by simp [kind]))
  | characterClass token kind good =>
    -- A good class has its closing bracket.
    exact List.forall_mem_singleton.mpr ⟨by simp [kind], fun _ => good.closed⟩
  | escape token kind good =>
    -- A good escape has something behind its backslash.
    refine List.forall_mem_singleton.mpr ⟨?_, by simp [kind]⟩
    rintro _ alone
    simp [GoodEscape, alone] at good
  | boundary token kind test =>
    -- So has the test for a word boundary.
    refine List.forall_mem_singleton.mpr ⟨?_, by simp [kind]⟩
    rintro _ alone
    simp [IsBoundary, alone] at test
  | group opening closing inner opens type closes body ih
  | lookahead opening closing inner opens type closes body ih =>
    simp only [List.forall_mem_cons, List.forall_mem_append]
    exact ⟨other opening (by simp [opens]), ih, other closing (by simp [closes]), by simp⟩
  | once atom body ih => exact ih
  | repeated atom quantifier body kind good ih =>
    simp only [List.forall_mem_append, List.forall_mem_singleton]
    exact ⟨ih, other quantifier (by simp [kind])⟩
  | nil | empty => simp
  | cons term rest first others ihFirst ihOthers =>
    exact List.forall_mem_append.mpr ⟨ihFirst, ihOthers⟩
  | last sequence only ih | branch sequence only full ih | closed tokens body ih => exact ih
  | more sequence rest bar first kind others ihFirst ihOthers
  | branches sequence rest bar first full kind others ihFirst ihOthers =>
    simp only [List.forall_mem_append, List.forall_mem_cons]
    exact ⟨ihFirst, other bar (by simp [kind]), ihOthers⟩
  | trailing tokens bar body kind ih =>
    simp only [List.forall_mem_append, List.forall_mem_singleton]
    exact ⟨ih, other bar (by simp [kind])⟩

/-- A whole token leaves no backslash on its own, and only an alternator is dropped at the end. -/
theorem Token.Whole.trailing {token : Token} (whole : token.Whole) (shaped : token.Shaped) :
    EscapesPaired token.text ∧ sansTrailingAlternator token.text =
      if token.kind = .alternator then [] else token.text := by
  have form := shaped.form
  -- Tokens that hold neither backslashes nor bars have nothing to show.
  by_cases tame : token.kind ≠ .characterClass ∧ token.kind ≠ .escape ∧ token.kind ≠ .alternator
  · have each := form.tame tame
    exact ⟨escapesPaired_of_tame each, by rw [if_neg tame.2.2, sansTrailingAlternator_of_tame each]⟩
  · cases kind : token.kind with
    | characterClass =>
      rw [kind] at form
      obtain ⟨⟨tail, opens⟩, full⟩ := form.of_characterClass
      -- The class is closed, so its parts are an opening, paired contents and a bracket.
      have closed := whole.2 kind
      rw [opens] at closed full
      have ends := ClassParts.closing_of_isClosed closed
      have paired := (ClassParts.contents_of_isClosed closed).2
      have front : EscapesPaired ((ClassParts.split ('[' :: tail)).opening ++
          (ClassParts.split ('[' :: tail)).contents) := by
        refine EscapesPaired.append (escapesPaired_of_tame ?_) paired
        rcases ClassParts.opening_eq tail with ⟨opening, _⟩ | ⟨opening, _⟩ <;> rw [opening] <;>
          simp [IsTame]
      -- The class is cut off in front of its last bracket.
      have cut : token.text = ((ClassParts.split ('[' :: tail)).opening ++
          (ClassParts.split ('[' :: tail)).contents) ++ [']'] := by
        have whole : _ ++ _ ++ _ = '[' :: tail := full
        rw [ends] at whole
        exact opens.trans whole.symm
      have last : EscapesPaired [']'] := escapesPaired_of_tame (by simp [IsTame])
      rw [cut, sansTrailingAlternator_append front (by simp)]
      exact ⟨front.append last, by simp; rfl⟩
    | escape =>
      rw [kind] at form
      obtain ⟨sequence, text, decimal, other⟩ := form.escape_sequence
      obtain ⟨first, rest, rfl⟩ : ∃ first rest, sequence = first :: rest := by
        -- The backslash applies to something.
        cases sequence with
        | nil => exact absurd text (whole.1 kind)
        | cons first rest => exact ⟨first, rest, rfl⟩
      -- What follows the escaped character are digits and letters.
      have each : ∀ symbol ∈ rest, IsTame symbol := by
        intro symbol member
        cases numbered : startsNumbered (first :: rest) with
        | true => exact isTame_of_isDigit (decimal numbered symbol (by simp [member]))
        | false => exact isTame_of_isAlphanum ((other numbered).isAlphanum symbol (by simpa using member))
      -- The escape is a backslash with its character, and behind it nothing is special.
      rw [text]
      refine ⟨show EscapesPaired rest from escapesPaired_of_tame each, ?_⟩
      rw [sansTrailingAlternator, sansTrailingAlternator_of_tame each]
      rfl
    | alternator =>
      -- An alternator is a bar, which is dropped.
      rw [kind] at form
      rw [form.of_alternator]
      exact ⟨(escapesPaired_cons (by decide)).mpr trivial, rfl⟩
    | _ => simp [kind] at tame

/-- No phrase but a pattern, or an alternative inside a group, ends with an alternator. -/
theorem Derives.ends {phrase : Phrase} {tokens : List Token} (derives : Derives phrase tokens)
    (solid : phrase ≠ .alternatives ∧ phrase ≠ .pattern) :
    ∀ token ∈ tokens.getLast?, token.kind ≠ .alternator := by
  induction derives with
  | literal _ kind | dot _ kind | characterClass _ kind | escape _ kind | anchor _ kind
  | boundary _ kind => simp [kind]
  | group opening closing inner _ _ closes | lookahead opening closing inner _ _ closes =>
    rw [← List.cons_append, List.getLast?_concat]
    simp [closes]
  | once _ _ ih => exact ih (by decide)
  | repeated _ _ _ kind => simp [kind]
  | nil => simp
  | cons term rest _ _ ihFirst ihOthers =>
    -- A sequence ends as its last term does.
    intro token last
    rw [List.getLast?_append] at last
    cases ending : rest.getLast? with
    | none => exact ihFirst (by decide) token (by simpa [ending] using last)
    | some other => exact ihOthers (by decide) token (by simpa [ending] using last)
  | branch _ _ _ ih => exact ih (by decide)
  | branches sequence rest bar _ _ _ others _ ih =>
    -- There is a branch behind the alternator, and it is not empty.
    have full := others.ne_nil (.inr (.inr rfl))
    have ending := List.getLast?_eq_some_getLast full
    rw [List.append_cons, List.getLast?_append, ending, Option.or, ← ending]
    exact ih (by decide)
  | last | more | empty | closed | trailing => simp at solid

/-- Only the last token of a pattern without faults can be dropped, and only as a whole. -/
theorem sansTrailingAlternator_of_derives {pattern : Text}
    (derives : Derives .pattern (scan pattern)) {front : List Token} {last : Token}
    (tokens : scan pattern = front ++ [last]) :
    sansTrailingAlternator pattern =
      front.flatMap Token.text ++ if last.kind = .alternator then [] else last.text := by
  have each (token : Token) (member : token ∈ scan pattern) :=
    (derives.whole token member).trailing (scan_shaped pattern token member)
  have paired : EscapesPaired (front.flatMap Token.text) :=
    escapesPaired_flatMap fun token member => (each token (by simp [tokens, member])).1
  have solid := (scan_shaped pattern last (by simp [tokens])).nonempty
  -- What stands in front of the last token is kept as it is.
  rw [← (each last (by simp [tokens])).2, ← sansTrailingAlternator_append paired solid]
  conv => lhs; rw [← scan_text pattern, tokens, List.flatMap_append, List.flatMap_singleton]

/-- A pattern without faults whose last token is a bar is a sequence of full branches in front. -/
theorem Derives.branches_of_bar {front : List Token} {bar : Token}
    (derives : Derives .pattern (front ++ [bar])) (kind : bar.kind = .alternator) :
    Derives .branches front := by
  -- The last token is a bar, so the derivation has ended with the rule for one.
  generalize same : front ++ [bar] = tokens at derives
  cases derives with
  | empty => simp at same
  | closed _ body => exact absurd kind (body.ends (by decide) bar (by simp [← same]))
  | trailing kept final body =>
    obtain ⟨rfl, -⟩ := List.append_inj' same rfl
    exact body

/-- Without its last alternator a pattern is still one, and its tokens are those in front. -/
theorem derives_sansTrailingAlternator {pattern : Text} (derives : Derives .pattern (scan pattern)) :
    Derives .pattern (scan (sansTrailingAlternator pattern)) ∧
      ∃ dropped, scan pattern = scan (sansTrailingAlternator pattern) ++ dropped := by
  -- The pattern is split into its last token and the tokens in front.
  have texts := scan_text pattern
  rcases List.eq_nil_or_concat (scan pattern) with none | ⟨front, last, tokens⟩
  · have blank : pattern = [] := by rw [← texts, none]; rfl
    subst blank
    exact ⟨derives, [], (List.append_nil _).symm⟩
  · rw [List.concat_eq_append] at tokens
    have sans := sansTrailingAlternator_of_derives derives tokens
    -- The last token is dropped when it is a bar, and nothing is dropped otherwise.
    by_cases bar : last.kind = .alternator
    · rw [if_pos bar, List.append_nil] at sans
      rw [sans, scan_front tokens]
      refine ⟨?_, [last], tokens⟩
      rw [tokens] at derives
      exact .closed _ (derives.branches_of_bar bar)
    · rw [if_neg bar] at sans
      have kept : sansTrailingAlternator pattern = pattern := by
        rw [sans]
        conv => rhs; rw [← texts, tokens, List.flatMap_append, List.flatMap_singleton]
      rw [kept]
      exact ⟨derives, [], by simp⟩

end RegexLens
