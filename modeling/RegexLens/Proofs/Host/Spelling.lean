import RegexLens.Host.Form
import RegexLens.Proofs.Host.ClassForm
import RegexLens.Proofs.Host.TreeForm

/-! The pieces of a host form are read as their own units, whatever pieces stand behind them. -/

namespace RegexLens

/-- A text in front of which a quantifier ends: neither mark of a quantifier follows. -/
def Calm (rest : Text) : Prop :=
  rest.head? ≠ some '?' ∧ rest.head? ≠ some '+'

namespace Lexeme

/-- Whether a repetition can follow units, given whether one could follow what stands before. -/
def leaves (repeatable : Bool) (lexemes : List Lexeme) : Bool :=
  lexemes.foldl (fun _ lexeme => lexeme.allowsRepetition) repeatable

/-- A form is read as some units in front of every text of a kind, and the reading goes on there. -/
def Spells (ends : Text → Prop) (form : Text) (lexemes : List Lexeme) : Prop :=
  ∀ repeatable rest, ends rest → readAll repeatable (form ++ rest) =
    (readAll (leaves repeatable lexemes) rest).map (lexemes ++ ·)

namespace Spells

variable {ends middle : Text → Prop} {form other : Text} {lexemes others : List Lexeme}

/-- Nothing spells nothing. -/
theorem nil : Spells ends [] [] := by
  intro repeatable rest _
  simp only [List.nil_append, leaves, List.foldl_nil]
  cases readAll repeatable rest <;> rfl

/-- Forms that follow one another spell the units of each. -/
theorem append (first : Spells middle form lexemes) (second : Spells ends other others)
    (meets : ∀ rest, ends rest → middle (other ++ rest)) :
    Spells ends (form ++ other) (lexemes ++ others) := by
  intro repeatable rest ended
  -- What the first units leave is what the second ones start from.
  have left : leaves repeatable (lexemes ++ others) = leaves (leaves repeatable lexemes) others := by
    simp [leaves, List.foldl_append]
  rw [List.append_assoc, first repeatable (other ++ rest) (meets rest ended),
    second (leaves repeatable lexemes) rest ended, left]
  cases readAll (leaves (leaves repeatable lexemes) others) rest with
  | error => rfl
  | ok read => simp [Except.map]

/-- A form that is read in front of any text can be followed by any other. -/
theorem followed (first : Spells (fun _ => True) form lexemes) (second : Spells ends other others) :
    Spells ends (form ++ other) (lexemes ++ others) :=
  first.append second fun _ _ => trivial

/-- A form that is read in front of any text is read in front of some. -/
theorem weaken (spells : Spells (fun _ => True) form lexemes) : Spells ends form lexemes :=
  fun repeatable rest _ => spells repeatable rest trivial

/-- A form whose first character is read along with all the others spells one unit. -/
theorem one {first : Char} {more : Text} {lexeme : Lexeme}
    (read : ∀ repeatable rest, ends rest →
      Lexeme.read repeatable first (more ++ rest) = .ok (lexeme, more.length)) :
    Spells ends (first :: more) [lexeme] := by
  intro repeatable rest ended
  -- The other characters are skipped, and the reading goes on behind them.
  rw [List.cons_append, readAll, read repeatable rest ended]
  simp only [Bind.bind, Except.bind, List.drop_left, leaves, List.foldl_cons, List.foldl_nil]
  cases readAll lexeme.allowsRepetition rest <;> rfl

end Spells

/-- A class that is written out spells the set that it stands for. -/
theorem spells_set {form : Text} {members : CharSet} (written : ClassSyntax form members) :
    Spells (fun _ => True) form [.atom (.set members)] := by
  -- A class begins with its bracket, and the reading of a set takes it from there.
  obtain ⟨_, _, _, _, opens⟩ := id written
  rw [opens] at written ⊢
  refine Spells.one ?_
  intro _ rest _
  simp only [read, readSet_of_syntax written rest, Bind.bind, Except.bind, Pure.pure, Except.pure]

/-- A character that means nothing else spells itself. -/
theorem spells_plain {symbol : Char} (ordinary : isHostOperator symbol = false) :
    Spells (fun _ => True) [symbol] [.atom (.char symbol)] := by
  refine Spells.one ?_
  intro repeatable rest _
  unfold read
  -- Every character with a rule of its own is an operator.
  split <;> first | rfl | (exact absurd ordinary (by decide))

/-- The characters that are quoted outside classes. -/
theorem mem_of_isHostOperator {symbol : Char} (operator : isHostOperator symbol = true) :
    symbol ∈ ['\\', '.', '+', '*', '?', '(', ')', '|', '[', ']', '\x7b', '\x7d', '^', '$', '#'] :=
  List.contains_iff_mem.mp operator

/-- A quoted operator spells the character itself. -/
theorem spells_quoted {symbol : Char} (operator : isHostOperator symbol = true) :
    Spells (fun _ => True) ['\\', symbol] [.atom (.char symbol)] := by
  refine Spells.one ?_
  intro repeatable rest _
  have known := mem_of_isHostOperator operator
  -- There are fifteen operators, and each of them is read as itself behind a backslash.
  simp only [List.mem_cons, List.not_mem_nil, or_false] at known
  rcases known with rfl | rfl | rfl | rfl | rfl | rfl | rfl | rfl | rfl | rfl | rfl | rfl | rfl |
    rfl | rfl <;> rfl

/-- A text in which operators are quoted spells its characters. -/
theorem spells_quoteWhere (text : Text) :
    Spells (fun _ => True) (quoteWhere isHostOperator text)
      (text.map fun symbol => .atom (.char symbol)) := by
  -- Each character is one unit, so the units are put one behind the other.
  induction text with
  | nil => exact Spells.nil
  | cons symbol rest ih =>
    -- Quoted or not, each character is one unit.
    have one : Spells (fun _ => True) (if isHostOperator symbol then ['\\', symbol] else [symbol])
        [.atom (.char symbol)] := by
      split
      · exact spells_quoted (by assumption)
      · rename_i ordinary
        exact spells_plain (by simpa using ordinary)
    exact one.followed ih

/-- Digits spell themselves. -/
theorem spells_digits {digits : Text} (numeric : ∀ digit ∈ digits, digit.isDigit = true) :
    Spells (fun _ => True) digits (digits.map fun symbol => .atom (.char symbol)) := by
  induction digits with
  | nil => exact Spells.nil
  | cons digit rest ih =>
    have numeral := numeric digit (by simp)
    -- No operator is a digit.
    have ordinary : isHostOperator digit = false := by
      cases operator : isHostOperator digit with
      | false => rfl
      | true =>
        have known := mem_of_isHostOperator operator
        simp only [List.mem_cons, List.not_mem_nil, or_false] at known
        rcases known with rfl | rfl | rfl | rfl | rfl | rfl | rfl | rfl | rfl | rfl | rfl | rfl |
          rfl | rfl | rfl <;> contradiction
    exact (spells_plain ordinary).followed (ih fun other member => numeric other (by simp [member]))

/-- A code in braces spells the character that it denotes. -/
theorem spells_codePoint {code : Nat} (valid : code.isValidChar) :
    ∃ symbol, symbol.toNat = code ∧
      Spells (fun _ => True) (codePointForm code) [.atom (.char symbol)] := by
  -- The digits are those of the code, and reading them gives the code back.
  have spelled : (valueIn 16 (hexDigits code)).isValidChar := by rwa [valueIn_hexDigits]
  refine ⟨Char.ofNatAux (valueIn 16 (hexDigits code)) spelled, valueIn_hexDigits code, ?_⟩
  -- The digits stand in braces behind the letter.
  have form : codePointForm code = '\\' :: 'x' :: '{' :: (hexDigits code ++ ['}']) := by
    simp [codePointForm]
  rw [form]
  refine Spells.one ?_
  intro _ rest _
  -- The digits in the braces are read up to the closing one.
  have digits := readCode_braces 2 rest (hexDigits_ne_nil code)
    (fun _ member => isHexDigit_of_mem_hexDigits member) spelled (by decide)
  generalize Char.ofNatAux (valueIn 16 (hexDigits code)) spelled = symbol at digits ⊢
  have plain : Char.isDigit 'x' = false := by decide
  rw [List.cons_append, List.cons_append, List.append_assoc, List.singleton_append]
  simp only [read, readEscape, plain, Bool.false_eq_true, if_false, escapeFamily?, readCharEscape,
    digits, Bind.bind, Except.bind, Pure.pure, Except.pure]
  simp

/-- The openings of groups that say what the group is. -/
def groupTypes : List (Text × GroupType) :=
  [("(?:".toList, .plain), ("(?=".toList, .lookAhead true), ("(?!".toList, .lookAhead false),
    ("(?<=".toList, .lookBehind true), ("(?<!".toList, .lookBehind false)]

/-- The opening of a group spells it, whatever stands in the group. -/
theorem spells_opening {form : Text} {type : GroupType} (known : (form, type) ∈ groupTypes) :
    Spells (fun _ => True) form [.openGroup type] := by
  simp only [groupTypes, List.mem_cons, Prod.mk.injEq, List.not_mem_nil, or_false] at known
  -- Each of the types is decided by the characters in front.
  rcases known with ⟨rfl, rfl⟩ | ⟨rfl, rfl⟩ | ⟨rfl, rfl⟩ | ⟨rfl, rfl⟩ | ⟨rfl, rfl⟩
  all_goals
    refine Spells.one ?_
    intro _ rest _
    rfl

/-- A parenthesis alone opens a group that captures, unless a group type follows. -/
theorem spells_capturing :
    Spells (fun rest => rest.head? ≠ some '?') ['('] [.openGroup .capturing] := by
  refine Spells.one ?_
  intro _ rest untyped
  -- Without a question mark there is no type to read.
  have type : readGroupType rest = .ok (.capturing, 0) := by
    cases rest with
    | nil => rfl
    | cons next more =>
      have other : next ≠ '?' := by simpa using untyped
      unfold readGroupType
      split <;> simp_all
  simp [read, type, Bind.bind, Except.bind, Pure.pure, Except.pure]

/-- A closing parenthesis spells the end of a group. -/
theorem spells_closing : Spells (fun _ => True) [')'] [.closeGroup] :=
  Spells.one fun _ _ _ => rfl

/-- A bar spells the mark between alternatives. -/
theorem spells_bar : Spells (fun _ => True) ['|'] [.alternator] :=
  Spells.one fun _ _ _ => rfl

/-- A backslash in front of digits spells a reference, unless more digits follow. -/
theorem spells_reference (number : Nat) :
    Spells (fun rest => ∀ next, rest.head? = some next → next.isDigit = false)
      ('\\' :: decimalDigits number) [.atom (.reference number)] := by
  refine Spells.one ?_
  intro _ rest ended
  -- The digits are those of the number, so reading them gives the number back.
  have each : ∀ digit ∈ decimalDigits number, digit.isDigit = true :=
    fun _ member => isDigit_of_mem_decimalDigits member
  -- The run of digits ends where the form ends.
  have run := digitRun_append rest each ended
  obtain ⟨digit, others, digits⟩ := List.exists_cons_of_ne_nil (decimalDigits_ne_nil number)
  have numeral : digit.isDigit = true := each digit (by simp [digits])
  have value := valueIn_decimalDigits number
  rw [digits] at run value ⊢
  rw [List.cons_append] at run ⊢
  simp only [read, readEscape, numeral, if_true, run, value, Bind.bind, Except.bind, Pure.pure,
    Except.pure]

/-- The wildcard spells a set that holds every character but those that end a line. -/
theorem spells_dot : ∃ members : CharSet,
    (∀ symbol, members.contains symbol = true ↔ symbol ∉ lineTerminators) ∧
      Spells (fun _ => True) dotForm [.atom (.set members)] := by
  refine ⟨⟨true, [.range '\n' '\n', .range '\r' '\r', .range '\u2028' '\u2028',
    -- The set is a complement of four ranges with one character each.
    .range '\u2029' '\u2029']⟩, ?_, ?_⟩
  · intro symbol
    -- A range from a character to itself holds that character only.
    have only (low : Char) : (SetItem.range low low).contains symbol = decide (symbol = low) := by
      rw [Bool.eq_iff_iff, SetItem.contains_range, decide_eq_true_eq, ← Char.toNat_inj]
      omega
    simp only [CharSet.contains, List.any_cons, List.any_nil, only, lineTerminators]
    simp
  · -- It is written with its four members in brackets, each of them a code or a name.
    refine spells_set ⟨[("\\n".toList, .range '\n' '\n'), ("\\r".toList, .range '\r' '\r'),
      ("\\x\x7b2028\x7d".toList, .range '\u2028' '\u2028'),
      ("\\x\x7b2029\x7d".toList, .range '\u2029' '\u2029')], by simp, ?_, rfl, rfl⟩
    have code (digits : Text) (nonempty : digits ≠ [])
        (hexadecimal : ∀ digit ∈ digits, isHexDigit digit = true)
        (valid : (valueIn 16 digits).isValidChar) :=
      MemberSyntax.single _ _ (.code digits nonempty hexadecimal valid)
    simp only [List.forall_mem_cons, List.not_mem_nil, false_implies, implies_true, and_true]
    exact ⟨.single _ _ (.named 'n' '\n' (by decide)), .single _ _ (.named 'r' '\r' (by decide)),
      code "2028".toList (by decide) (List.all_eq_true.mp (by decide)) (by decide),
      code "2029".toList (by decide) (List.all_eq_true.mp (by decide)) (by decide)⟩

/-- A shorthand class in brackets spells a set that holds its characters. -/
theorem spells_shorthand {sequence : Text} (named : isMetaclass sequence = true) :
    ∃ members : CharSet,
      (∀ symbol, members.contains symbol = shorthandContains sequence symbol) ∧
        Spells (fun _ => True) ('[' :: metaclassForm sequence ++ [']'])
          [.atom (.set members)] := by
  -- The class has one member, which is the family of the shorthand.
  obtain ⟨item, written, contains⟩ := metaclassForm_syntax named
  refine ⟨⟨false, [item]⟩, ?_, ?_⟩
  · intro symbol
    simp [CharSet.contains, contains]
  · refine spells_set ⟨[(metaclassForm sequence, item)], by simp, ?_, rfl, by simp⟩
    simpa using MemberSyntax.family _ _ written

/-- A look-around that tests one word character spells its opening, the set and its end. -/
theorem spells_wordTest {opening : Text} {type : GroupType}
    (known : (opening, type) ∈ groupTypes) :
    Spells (fun _ => True) (opening ++ "[[:word:]])".toList)
      (PatternTree.wordTest type) := by
  -- Every one of the tests looks for the same set.
  have set : Spells (fun _ => True) "[[:word:]]".toList [.atom (.set wordSet)] :=
    spells_set ⟨[("[:word:]".toList, .family .word false)], by simp,
      by simpa using MemberSyntax.family _ _ .word, rfl, by decide⟩
  exact (spells_opening known).followed (set.followed spells_closing)

/-- Two tests of a word character on each side of a bar, in a group, given how each test opens. -/
def testsForm (first second third fourth : Text) : Text :=
  "(?:".toList ++ (first ++ "[[:word:]])".toList) ++ (second ++ "[[:word:]])".toList) ++ ['|'] ++
    (third ++ "[[:word:]])".toList) ++ (fourth ++ "[[:word:]])".toList) ++ [')']

/-- The tests on both sides of the bar spell the units of each. -/
theorem spells_tests {first second third fourth : Text} {one two three four : GroupType}
    (firstKnown : (first, one) ∈ groupTypes) (secondKnown : (second, two) ∈ groupTypes)
    (thirdKnown : (third, three) ∈ groupTypes) (fourthKnown : (fourth, four) ∈ groupTypes) :
    Spells (fun _ => True) (testsForm first second third fourth)
      (Lexeme.openGroup .plain :: PatternTree.wordTest one ++ PatternTree.wordTest two ++
        [Lexeme.alternator] ++ PatternTree.wordTest three ++ PatternTree.wordTest four ++
          [Lexeme.closeGroup]) := by
  have opened : Spells (fun _ => True) "(?:".toList [.openGroup .plain] :=
    spells_opening (by simp [groupTypes])
  -- The pieces are read one by one, the last of them first here.
  refine Spells.followed ?_ spells_closing
  refine Spells.followed ?_ (spells_wordTest fourthKnown)
  refine Spells.followed ?_ (spells_wordTest thirdKnown)
  refine Spells.followed ?_ spells_bar
  refine Spells.followed ?_ (spells_wordTest secondKnown)
  exact opened.followed (spells_wordTest firstKnown)

/-- The test for a boundary is made of tests that begin as look-arounds do. -/
theorem wordBoundaryForm_eq :
    wordBoundaryForm = testsForm "(?<=".toList "(?!".toList "(?<!".toList "(?=".toList := by
  decide

/-- The test for the lack of a boundary is made of the same tests, otherwise combined. -/
theorem notWordBoundaryForm_eq :
    notWordBoundaryForm = testsForm "(?<=".toList "(?=".toList "(?<!".toList "(?!".toList := by
  decide

/-- The test for a boundary spells a group of look-arounds. -/
theorem spells_boundary (wanted : Bool) :
    Spells (fun _ => True) (if wanted then wordBoundaryForm else notWordBoundaryForm)
      (PatternTree.boundaryLexemes wanted) := by
  -- The four look-arounds are in the table of the host.
  have behind : ("(?<=".toList, .lookBehind true) ∈ groupTypes := by simp [groupTypes]
  have notBehind : ("(?<!".toList, .lookBehind false) ∈ groupTypes := by simp [groupTypes]
  have ahead : ("(?=".toList, .lookAhead true) ∈ groupTypes := by simp [groupTypes]
  have notAhead : ("(?!".toList, .lookAhead false) ∈ groupTypes := by simp [groupTypes]
  cases wanted with
  | true =>
    rw [if_pos rfl, wordBoundaryForm_eq]
    exact spells_tests behind notAhead notBehind ahead
  | false =>
    rw [if_neg (by simp), notWordBoundaryForm_eq]
    exact spells_tests behind ahead notBehind notAhead

/-- Bounds that are acceptable are read from between their braces. -/
theorem readBounds?_repetition {body : Text} {bounds : Bounds}
    (repetition : Repetition ('{' :: body) bounds) (rest : Text) :
    readBounds? (body ++ rest) = some (bounds, body.length) := by
  -- The first of the forms with a brace are told apart by what follows the digits.
  generalize whole : '{' :: body = form at repetition
  cases repetition with
  | optional => simp at whole
  | any => simp at whole
  | some => simp at whole
  -- Exactly one number stands between the braces.
  | exact count number =>
    obtain rfl := (List.cons.inj whole).2
    have run := digitRun_append ('}' :: rest) number.2 (by simp)
    simp only [List.append_assoc, List.singleton_append, readBounds?, run, List.drop_left]
    cases count with
    | nil => exact absurd rfl number.1
    | cons digit others => simp
  -- Behind the comma the digits are missing.
  | atLeast lower number =>
    obtain rfl := (List.cons.inj whole).2
    have run := digitRun_append (',' :: '}' :: rest) number.2 (by simp)
    have none : digitRun ('}' :: rest) = [] := by simp [digitRun]
    simp only [List.append_assoc, List.cons_append, List.nil_append, readBounds?, run,
      List.drop_left]
    cases lower with
    | nil => exact absurd rfl number.1
    | cons digit others => simp [none]
  | between lower upper lowerNumber upperNumber =>
    obtain rfl := (List.cons.inj whole).2
    have lowerRun := digitRun_append (',' :: (upper ++ '}' :: rest)) lowerNumber.2 (by simp)
    have upperRun := digitRun_append ('}' :: rest) upperNumber.2 (by simp)
    simp only [List.append_assoc, List.cons_append, List.nil_append, readBounds?, lowerRun,
      List.drop_left]
    -- The upper bound has a digit, so it is not taken for a missing one.
    have written := upperNumber.1
    cases lower with
    | nil => exact absurd rfl lowerNumber.1
    | cons digit others =>
      simp [upperRun, written]
      omega

/-- A quantifier ends with its lazy mark when no other mark follows. -/
theorem markedQuantifier_calm (bounds : Bounds) (front : Text) (isLazy : Bool) {rest : Text}
    (calm : Calm rest) :
    markedQuantifier bounds front.length (front ++ (if isLazy then ['?'] else []) ++ rest) =
      .ok (.quantifier bounds isLazy false, (front ++ if isLazy then ['?'] else []).length) := by
  unfold markedQuantifier
  rw [List.append_assoc, List.drop_left]
  -- A lazy mark is taken along, and then no further mark may follow.
  cases isLazy with
  | true =>
    simp only [if_true, List.cons_append, List.nil_append]
    split
    · -- A possessive mark would follow the lazy one.
      rename_i follows
      have head := congrArg List.head? (List.cons.inj follows).2
      exact absurd head calm.2
    · simp
    · rename_i follows
      simp at follows
    · rename_i other _
      exact absurd rfl (other _)
  -- Without a lazy mark no mark at all may follow.
  | false =>
    simp only [Bool.false_eq_true, if_false, List.nil_append, List.append_nil]
    split
    · exact absurd rfl calm.1
    · exact absurd rfl calm.1
    · exact absurd rfl calm.2
    · rfl

/-- A quantifier is read with its bounds and its lazy mark behind what can be repeated. -/
theorem readAll_quantifier {text : Text} {bounds : Bounds} {isLazy : Bool}
    (repeats : RepeatsAs text bounds isLazy) {rest : Text} (calm : Calm rest) :
    readAll true (text ++ rest) =
      (readAll false rest).map (.quantifier bounds isLazy false :: ·) := by
  obtain ⟨body, repetition, rfl⟩ := repeats
  -- The first character selects the rule, and only a brace has bounds to read behind it.
  have step (first : Char) (more : Text)
      (starts : Lexeme.read true first (more ++ (if isLazy then ['?'] else []) ++ rest) =
        .ok (.quantifier bounds isLazy false, (more ++ if isLazy then ['?'] else []).length)) :
      readAll true (first :: more ++ (if isLazy then ['?'] else []) ++ rest) =
        (readAll false rest).map (.quantifier bounds isLazy false :: ·) := by
    rw [List.cons_append, List.cons_append, readAll, starts]
    simp only [Bind.bind, Except.bind, List.drop_left, allowsRepetition]
    cases readAll false rest <;> rfl
  -- Between braces the bounds are read first, and the mark is looked for behind them.
  have interval (more : Text) (repetition : Repetition ('{' :: more) bounds) :
      readAll true ('{' :: more ++ (if isLazy then ['?'] else []) ++ rest) =
        (readAll false rest).map (.quantifier bounds isLazy false :: ·) := by
    refine step '{' more ?_
    have read := readBounds?_repetition repetition ((if isLazy then ['?'] else []) ++ rest)
    rw [← List.append_assoc] at read
    simp only [Lexeme.read, read]
    exact markedQuantifier_calm bounds more isLazy calm
  have whole := repetition
  -- Three marks have their bounds fixed, and the other forms are intervals.
  cases repetition with
  | optional => exact step '?' [] (markedQuantifier_calm _ [] isLazy calm)
  | any => exact step '*' [] (markedQuantifier_calm _ [] isLazy calm)
  | some => exact step '+' [] (markedQuantifier_calm _ [] isLazy calm)
  | exact count number => exact interval _ whole
  | atLeast lower number => exact interval _ whole
  | between lower upper lowerNumber upperNumber => exact interval _ whole

end Lexeme

/-- A quantifier has one meaning, because it is read in one way. -/
theorem RepeatsAs.unique {text : Text} {bounds other : Bounds} {isLazy otherLazy : Bool}
    (repeats : RepeatsAs text bounds isLazy) (again : RepeatsAs text other otherLazy) :
    bounds = other ∧ isLazy = otherLazy := by
  -- Both readings are those of the host, which reads the text in one way.
  have calm : Calm [] := by simp [Calm]
  have read := Lexeme.readAll_quantifier repeats calm
  rw [Lexeme.readAll_quantifier again calm, Lexeme.readAll] at read
  obtain ⟨bounds, isLazy⟩ : other = bounds ∧ otherLazy = isLazy := by
    simpa [Except.map] using read
  exact ⟨bounds.symm, isLazy.symm⟩

end RegexLens
