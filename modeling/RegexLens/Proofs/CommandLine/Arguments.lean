import Mathlib.Data.List.Forall2
import RegexLens.CommandLine.Options

/-! Arguments are read item by item, and their order counts within one setting only. -/

namespace RegexLens

/-- The part of a command line that says one thing. -/
inductive ArgumentItem
  /-- The flag for the pattern, with the argument behind it. -/
  | taking (next : Text)
  /-- The flag for the pattern, with no argument behind it. -/
  | bare
  /-- Any other argument. -/
  | single (argument : Text)
deriving DecidableEq, Repr

namespace ArgumentItem

/-- The arguments that an item consists of. -/
def arguments : ArgumentItem → List Text
  | taking next => ["-E".toList, next]
  | bare => ["-E".toList]
  | single argument => [argument]

/-- Arguments cut into items from left to right. -/
def cut : List Text → List ArgumentItem
  | [] => []
  | [argument] => if argument = "-E".toList then [bare] else [single argument]
  | argument :: next :: rest =>
    -- The argument behind the flag is taken whatever it looks like.
    if argument = "-E".toList then taking next :: cut rest
    else single argument :: cut (next :: rest)

/-- Items into which arguments are cut. -/
structure Cuts (whole : List Text) (items : List ArgumentItem) : Prop where
  /-- No argument is left out. -/
  whole : items.flatMap arguments = whole
  /-- The flag for the pattern never stands for itself. -/
  flag : single "-E".toList ∉ items
  /-- The flag takes the argument behind it whenever there is one. -/
  last : ∀ front back, items = front ++ bare :: back → back = []

/-- What is wrong with an item, if anything is. -/
def error? : ArgumentItem → Option UsageError
  | taking _ => none
  | bare => some .missingPattern
  | single argument =>
    if argument ∈ ["--syntax".toList, "--matches".toList, "--no-syntax-highlighting".toList,
        "--explain".toList, "-r".toList] then none
    else if "--color=".toList <+: argument then
      let value := argument.drop 8
      if value ∈ ["always".toList, "never".toList, "auto".toList] then none
      else some (.invalidColour value)
    -- A dash alone is no option, and neither is the empty argument.
    else if argument.head? = some '-' ∧ 1 < argument.length then some (.unknownOption argument)
    else none

/-- The pattern that an item gives. -/
def pattern? : ArgumentItem → Option Text
  | taking next => some next
  | _ => none

/-- The panes that an item chooses. -/
def panes? : ArgumentItem → Option PaneChoice
  | single argument =>
    if argument = "--syntax".toList then some .pattern
    else if argument = "--matches".toList then some .samples
    else none
  | _ => none

/-- The use of colours that an item chooses. -/
def colour? : ArgumentItem → Option ColourChoice
  | single argument =>
    if argument = "--color=always".toList then some .always
    else if argument = "--color=never".toList then some .never
    else if argument = "--color=auto".toList then some .auto
    else none
  | _ => none

/-- The operand that an item is. -/
def path? : ArgumentItem → Option Text
  | single argument =>
    if argument.head? = some '-' ∧ 1 < argument.length then none else some argument
  | _ => none

/-- Items in another order, which keeps the order of those that make the same setting. -/
structure Rearranged (items others : List ArgumentItem) : Prop where
  perm : items.Perm others
  patterns : items.filterMap pattern? = others.filterMap pattern?
  panes : items.filterMap panes? = others.filterMap panes?
  colours : items.filterMap colour? = others.filterMap colour?
  paths : items.filterMap path? = others.filterMap path?

/-- What items ask for: their first error, or the last of each setting and every operand. -/
def meaning (items : List ArgumentItem) : Except UsageError Options :=
  -- An error anywhere comes before a pattern that is missing.
  match items.findSome? error? with
  | some error => .error error
  | none =>
    match (items.filterMap pattern?).getLast? with
    | none => .error .missingPattern
    | some pattern => .ok {
        pattern
        panes := (items.filterMap panes?).getLast?.getD .both
        stylesPattern := decide (single "--no-syntax-highlighting".toList ∉ items)
        explains := decide (single "--explain".toList ∈ items)
        isRecursive := decide (single "-r".toList ∈ items)
        colour := (items.filterMap colour?).getLast?.getD .never
        paths := items.filterMap path? }

/-- The items of a command line cover it, and each takes the arguments that belong to it. -/
theorem cuts_cut (whole : List Text) : Cuts whole (cut whole) := by
  -- The cut takes two arguments for the flag of a pattern, and one for anything else.
  fun_induction cut whole with
  | case1 => exact ⟨rfl, by simp, by simp⟩
  | case2 =>
    refine ⟨rfl, by simp, ?_⟩
    intro front back same
    -- A list with one item has nothing behind it.
    have size := congrArg List.length same
    simp only [List.length_cons, List.length_nil, List.length_append] at size
    exact List.length_eq_zero_iff.mp (by omega)
  | case3 argument other =>
    refine ⟨rfl, by simpa using Ne.symm other, ?_⟩
    intro front back same
    cases front <;> simp at same
  -- The flag takes the argument behind it, so the items go on behind both.
  | case4 next rest ih =>
    refine ⟨?_, List.not_mem_cons_of_ne_of_not_mem (by simp) ih.flag, ?_⟩
    · rw [List.flatMap_cons, ih.whole]
      rfl
    · intro front back same
      cases front with
      | nil => simp at same
      | cons item others => exact ih.last others back (List.cons.inj same).2
  | case5 argument next rest other ih =>
    -- The argument is an item of its own, and it is not the flag.
    have itself : single "-E".toList ≠ single argument := fun same =>
      other (ArgumentItem.single.inj same).symm
    refine ⟨?_, List.not_mem_cons_of_ne_of_not_mem itself ih.flag, ?_⟩
    · rw [List.flatMap_cons, ih.whole]
      rfl
    · intro front back same
      cases front with
      | nil => simp at same
      | cons item others => exact ih.last others back (List.cons.inj same).2

/-- There is one way to cut a command line into items. -/
theorem Cuts.unique {whole : List Text} {items : List ArgumentItem} (cuts : Cuts whole items) :
    items = cut whole := by
  induction items generalizing whole with
  | nil =>
    rw [← cuts.whole]
    rfl
  | cons item rest ih =>
    have others : Cuts (rest.flatMap arguments) rest :=
      ⟨rfl, fun member => cuts.flag (List.mem_cons_of_mem _ member),
        fun front back same => cuts.last (item :: front) back (congrArg (item :: ·) same)⟩
    refine (congrArg (item :: ·) (ih others)).trans ?_
    rw [← cuts.whole, List.flatMap_cons]
    cases item with
    | taking next => simp [arguments, cut]
    | bare =>
      -- Nothing follows a flag that takes no argument.
      rw [cuts.last [] rest rfl]
      rfl
    | single argument =>
      have other : argument ≠ "-E".toList := by
        rintro rfl
        exact cuts.flag (List.mem_cons_self ..)
      -- The argument stands for itself, whether others follow it or not.
      rw [arguments, List.singleton_append]
      cases rest.flatMap arguments with
      | nil => rw [cut, cut, if_neg other]
      | cons next more => rw [cut.eq_3, if_neg other]

end ArgumentItem

namespace OptionItem

/-- The pattern that an item sets. -/
def pattern? : OptionItem → Option Text
  | .pattern text => some text
  | _ => none

/-- The panes that an item sets. -/
def panes? : OptionItem → Option PaneChoice
  | .panes choice => some choice
  | _ => none

/-- The use of colours that an item sets. -/
def colour? : OptionItem → Option ColourChoice
  | .colour choice => some choice
  | _ => none

/-- The operand that an item adds. -/
def path? : OptionItem → Option Text
  | .path text => some text
  | _ => none

end OptionItem

/-- An item of the command line that sets what an option says. -/
structure ArgumentItem.Sets (item : ArgumentItem) (option : OptionItem) : Prop where
  pattern : item.pattern? = option.pattern?
  panes : item.panes? = option.panes?
  colour : item.colour? = option.colour?
  path : item.path? = option.path?
  plain : item = .single "--no-syntax-highlighting".toList ↔ option = .plainPattern
  explain : item = .single "--explain".toList ↔ option = .explain
  recursive : item = .single "-r".toList ↔ option = .recursive

namespace ArgumentItem

/-- An item is bad with the error that it is read as, or it sets what the option says. -/
def ReadAs (item : ArgumentItem) (result : Except UsageError OptionItem) : Prop :=
  match result with
  | .error error => item.error? = some error
  | .ok option => item.error? = none ∧ item.Sets option

/-- The value behind the flag for colours is one of three, or it is bad. -/
theorem colour_readAs (value : Text) :
    ReadAs (single ("--color=".toList ++ value)) (OptionItem.colourNamed value) := by
  unfold OptionItem.colourNamed
  -- The three known values are tried one after another.
  iterate 3
    split
    · rename_i known
      subst known
      refine ⟨rfl, rfl, rfl, rfl, rfl, ?_, ?_, ?_⟩ <;> decide
  rename_i always never auto
  have flag (other : Text) (short : other.take 8 ≠ "--color=".toList) :
      -- The option is longer than any flag with another beginning.
      "--color=".toList ++ value ≠ other := by
    rintro rfl
    exact short rfl
  have front : "--color=".toList <+: "--color=".toList ++ value := List.prefix_append _ _
  have behind : ("--color=".toList ++ value).drop 8 = value := rfl
  -- It is no flag, but it begins as the option does, and its value is none of the three.
  rw [ReadAs, error?, if_neg, if_pos front, behind, if_neg]
  · simp only [List.mem_cons, List.not_mem_nil, or_false, not_or]
    exact ⟨always, never, auto⟩
  · simp only [List.mem_cons, List.not_mem_nil, or_false, not_or]
    refine ⟨flag _ ?_, flag _ ?_, flag _ ?_, flag _ ?_, flag _ ?_⟩ <;> decide

/-- A single argument is bad, or it sets what the option says that it is read as. -/
theorem single_readAs (argument : Text) :
    ReadAs (single argument) (OptionItem.ofArgument argument) := by
  unfold OptionItem.ofArgument
  -- The five flags without a value are tried one after another.
  iterate 5
    split
    · rename_i known
      subst known
      refine ⟨rfl, rfl, rfl, rfl, rfl, ?_, ?_, ?_⟩ <;> decide
  rename_i syntaxOnly matchesOnly plain explain recursive
  -- From here on the argument is none of the flags.
  have unflagged : argument ∉ ["--syntax".toList, "--matches".toList,
      "--no-syntax-highlighting".toList, "--explain".toList, "-r".toList] := by
    simp only [List.mem_cons, List.not_mem_nil, or_false, not_or]
    exact ⟨syntaxOnly, matchesOnly, plain, explain, recursive⟩
  split
  · -- The option for colours is told by its beginning.
    rename_i front
    obtain ⟨value, rfl⟩ := List.isPrefixOf_iff_prefix.mp front
    rw [List.drop_left]
    exact colour_readAs value
  · rename_i other
    have uncoloured : ¬ "--color=".toList <+: argument := mt List.isPrefixOf_iff_prefix.mpr other
    split
    · rename_i dash
      -- A dash with something behind it is an unknown option.
      rw [ReadAs, error?, if_neg unflagged, if_neg uncoloured, if_pos (by simpa using dash)]
    · rename_i dash
      have operand : ¬ (argument.head? = some '-' ∧ 1 < argument.length) := by simpa using dash
      -- Every argument with a meaning of its own is a dash with something behind it.
      have different (flag : Text) (dashed : flag.head? = some '-' ∧ 1 < flag.length) :
          argument ≠ flag := by
        rintro rfl
        exact operand dashed
      refine ⟨?_, rfl, ?_, ?_, ?_, ?_, ?_, ?_⟩
      · -- Nothing else is left than an operand, which sets a path alone.
        rw [error?, if_neg unflagged, if_neg uncoloured, if_neg operand]
      · rw [panes?, if_neg syntaxOnly, if_neg matchesOnly]
        rfl
      · rw [colour?, if_neg (different _ (by decide)), if_neg (different _ (by decide)),
          if_neg (different _ (by decide))]
        rfl
      · rw [path?, if_neg operand]
        rfl
      · exact ⟨fun same => absurd (ArgumentItem.single.inj same) plain, fun same => by cases same⟩
      · exact ⟨fun same => absurd (ArgumentItem.single.inj same) explain, fun same => by cases same⟩
      · exact ⟨fun same => absurd (ArgumentItem.single.inj same) recursive,
          fun same => by cases same⟩

/-- Items have a first bad one, or they set what the options say. -/
def Reads (items : List ArgumentItem) (result : Except UsageError (List OptionItem)) : Prop :=
  match result with
  | .error error => items.findSome? error? = some error
  | .ok options => items.findSome? error? = none ∧ List.Forall₂ Sets items options

/-- A bad item ends the reading. -/
theorem Reads.of_error {item : ArgumentItem} {error : UsageError} (rest : List ArgumentItem)
    (bad : item.error? = some error) : Reads (item :: rest) (.error error) := by
  rw [Reads, List.findSome?_cons, bad]

/-- A good item in front leaves the verdict to the items behind it. -/
theorem Reads.cons {item : ArgumentItem} {option : OptionItem} {rest : List ArgumentItem}
    {result : Except UsageError (List OptionItem)} (others : Reads rest result)
    (good : item.error? = none) (sets : item.Sets option) :
    Reads (item :: rest) (result.map (option :: ·)) := by
  -- An error behind the item stays the first one.
  cases result with
  | error error =>
    show (item :: rest).findSome? error? = some error
    rw [List.findSome?_cons, good]
    exact others
  | ok options =>
    -- Otherwise the option of the item comes in front of theirs.
    refine ⟨?_, .cons sets others.2⟩
    rw [List.findSome?_cons, good]
    exact others.1

/-- A single argument in front ends the reading when it is bad, or leaves it to what follows. -/
theorem Reads.single {rest : List ArgumentItem} {result : Except UsageError (List OptionItem)}
    (others : Reads rest result) (argument : Text) :
    Reads (.single argument :: rest)
      (match OptionItem.ofArgument argument with
        | .error error => .error error
        | .ok option => result.map (option :: ·)) := by
  have read := single_readAs argument
  -- The argument is read by itself, whatever stands behind it.
  cases found : OptionItem.ofArgument argument with
  | error error =>
    rw [found] at read
    exact Reads.of_error rest read
  | ok option =>
    rw [found] at read
    exact others.cons read.1 read.2

/-- The flag with its argument sets the pattern. -/
theorem taking_sets (next : Text) : (taking next).Sets (.pattern next) := by
  refine ⟨rfl, rfl, rfl, rfl, ?_, ?_, ?_⟩ <;> simp

/-- The options that are read off a command line are those that its items set. -/
theorem reads_readAll (whole : List Text) : Reads (cut whole) (OptionItem.readAll whole) := by
  have ended : Reads [] (.ok []) := ⟨rfl, .nil⟩
  -- The items are cut off as the options are read, from the front.
  fun_induction cut whole with
  | case1 => exact ended
  | case2 => rfl
  | case3 argument other =>
    have read := ended.single argument
    rw [OptionItem.readAll, OptionItem.patternFlag, if_neg other]
    -- Behind the last argument the reading ends with its option alone.
    cases found : OptionItem.ofArgument argument with
    | error error => rwa [found] at read
    | ok option => rwa [found] at read
  -- The flag and its argument are one item that gives the pattern.
  | case4 next rest ih =>
    rw [OptionItem.readAll, OptionItem.patternFlag, if_pos rfl]
    exact ih.cons rfl (taking_sets next)
  | case5 argument next rest other ih =>
    rw [OptionItem.readAll, OptionItem.patternFlag, if_neg other]
    exact ih.single argument

/-- What each item gives is what the option gives that it sets. -/
theorem filterMap_of_sets {value : Type} {items : List ArgumentItem} {options : List OptionItem}
    (sets : List.Forall₂ Sets items options) (given : ArgumentItem → Option value)
    (said : OptionItem → Option value)
    (same : ∀ item option, item.Sets option → given item = said option) :
    items.filterMap given = options.filterMap said := by
  -- Items and options are walked through in step.
  induction sets with
  | nil => rfl
  | cons first _ ih => rw [List.filterMap_cons, List.filterMap_cons, same _ _ first, ih]

/-- A switch is among the items iff it is among the options that they set. -/
theorem mem_of_sets {items : List ArgumentItem} {options : List OptionItem}
    (sets : List.Forall₂ Sets items options) (flag : ArgumentItem) (switch : OptionItem)
    (same : ∀ item option, item.Sets option → (item = flag ↔ option = switch)) :
    flag ∈ items ↔ switch ∈ options := by
  induction sets with
  | nil => simp
  | cons first _ ih =>
    rw [List.mem_cons, List.mem_cons, ih, eq_comm, same _ _ first, eq_comm]

end ArgumentItem

namespace Options

open ArgumentItem

/-- Options set one after another keep the last of each setting, and every operand. -/
theorem foldl_set (said : List OptionItem) (options : Options) :
    said.foldl set options =
      ⟨(said.filterMap OptionItem.pattern?).getLast?.getD options.pattern,
        (said.filterMap OptionItem.panes?).getLast?.getD options.panes,
        options.stylesPattern && decide (.plainPattern ∉ said),
        options.explains || decide (.explain ∈ said),
        options.isRecursive || decide (.recursive ∈ said),
        (said.filterMap OptionItem.colour?).getLast?.getD options.colour,
        options.paths ++ said.filterMap OptionItem.path?⟩ := by
  -- The options that are set first are the ones that later ones override.
  induction said generalizing options with
  | nil => simp
  | cons item rest ih =>
    rw [List.foldl_cons, ih]
    -- The item overrides one setting, and a later item of its kind overrides it.
    cases item <;> simp [set, OptionItem.pattern?, OptionItem.panes?, OptionItem.colour?,
      OptionItem.path?, List.filterMap_cons, List.getLast?_cons]

/-- The options hold a pattern iff a last one is found among them. -/
theorem any_pattern (said : List OptionItem) :
    (said.any fun item => item matches .pattern _) =
      (said.filterMap OptionItem.pattern?).getLast?.isSome := by
  -- Only an option that gives a pattern changes either side.
  induction said with
  | nil => rfl
  | cons item rest ih =>
    cases item <;> simp [ih, OptionItem.pattern?, List.filterMap_cons, List.getLast?_cons]

/-- Options are put together iff one of them gives a pattern. -/
theorem ofItems_eq (said : List OptionItem) :
    ofItems said =
      if (said.filterMap OptionItem.pattern?).getLast?.isSome then .ok (said.foldl set standard)
      else .error .missingPattern :=
  congrArg (fun has : Bool => if has then Except.ok (said.foldl set standard)
    else Except.error UsageError.missingPattern) (any_pattern said)

/-- Options that items set are put together to what the items mean. -/
theorem ofItems_of_sets {items : List ArgumentItem} {said : List OptionItem}
    (good : items.findSome? error? = none) (sets : List.Forall₂ Sets items said) :
    ofItems said = meaning items := by
  -- The three switches are among the options when their flags are among the items.
  have plain := mem_of_sets sets _ _ fun _ _ one => one.plain
  have explain := mem_of_sets sets _ _ fun _ _ one => one.explain
  have recursive := mem_of_sets sets _ _ fun _ _ one => one.recursive
  rw [ofItems_eq, foldl_set, meaning, good,
    filterMap_of_sets sets _ _ fun _ _ one => one.pattern,
    filterMap_of_sets sets _ _ fun _ _ one => one.panes,
    filterMap_of_sets sets _ _ fun _ _ one => one.colour,
    filterMap_of_sets sets _ _ fun _ _ one => one.path]
  -- What is left depends on whether a pattern was given.
  simp only [decide_eq_decide.mpr (not_congr plain), decide_eq_decide.mpr explain,
    decide_eq_decide.mpr recursive]
  cases (said.filterMap OptionItem.pattern?).getLast? with
  | none => rfl
  | some pattern => rfl

/-- Reading arguments gives what their items mean. -/
theorem parse_eq_meaning (arguments : List Text) : parse arguments = meaning (cut arguments) := by
  have reads := reads_readAll arguments
  unfold parse
  -- Either an error has ended the reading, or each item has set an option.
  cases result : OptionItem.readAll arguments with
  | error error =>
    rw [result] at reads
    rw [meaning, show (cut arguments).findSome? error? = some error from reads]
  | ok said =>
    rw [result] at reads
    exact ofItems_of_sets reads.1 reads.2

/-- Good items mean the same in any order that keeps the order of those that make one setting. -/
theorem meaning_rearranged {items others : List ArgumentItem}
    (good : ∀ item ∈ items, item.error? = none) (rearranged : Rearranged items others) :
    meaning others = meaning items := by
  -- No item is bad, whatever the order, so both sides come down to the settings.
  have first : items.findSome? error? = none := List.findSome?_eq_none_iff.mpr good
  have second : others.findSome? error? = none := List.findSome?_eq_none_iff.mpr
    fun item member => good item (rearranged.perm.mem_iff.mpr member)
  simp only [meaning, first, second, rearranged.patterns, rearranged.panes, rearranged.colours,
    rearranged.paths, rearranged.perm.mem_iff]

/--
Arguments are read item by item, and the options are what the items mean.

Items are cut off in one way only, and the first bad one is the error.
Good items may change places unless they make the same setting.
-/
theorem parse_by_items (arguments : List Text) :
    (∀ items, Cuts arguments items ↔ items = cut arguments) ∧
      parse arguments = meaning (cut arguments) ∧
      ∀ others, (∀ item ∈ cut arguments, item.error? = none) →
        Rearranged (cut arguments) (cut others) → parse others = parse arguments := by
  -- The items of a command line are unique, and the meaning depends on them alone.
  refine ⟨fun items => ⟨Cuts.unique, ?_⟩, parse_eq_meaning arguments, ?_⟩
  · rintro rfl
    exact cuts_cut arguments
  · intro others good rearranged
    rw [parse_eq_meaning, parse_eq_meaning, meaning_rearranged good rearranged]

/-- A flag that is taken as the pattern moves with the flag that takes it. -/
theorem parse_by_items_moved :
    (∀ item ∈ cut ["-r".toList, "-E".toList, "--explain".toList, "a".toList],
        item.error? = none) ∧
      Rearranged (cut ["-r".toList, "-E".toList, "--explain".toList, "a".toList])
        (cut ["a".toList, "-E".toList, "--explain".toList, "-r".toList]) ∧
      parse ["a".toList, "-E".toList, "--explain".toList, "-r".toList] =
        parse ["-r".toList, "-E".toList, "--explain".toList, "a".toList] := by
  have good : ∀ item ∈ cut ["-r".toList, "-E".toList, "--explain".toList, "a".toList],
      item.error? = none := by decide
  have rearranged : Rearranged (cut ["-r".toList, "-E".toList, "--explain".toList, "a".toList])
      (cut ["a".toList, "-E".toList, "--explain".toList, "-r".toList]) :=
    ⟨by decide, rfl, rfl, rfl, rfl⟩
  exact ⟨good, rearranged, (parse_by_items _).2.2 _ good rearranged⟩

end Options

end RegexLens
