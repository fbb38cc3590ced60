import Mathlib.Data.List.Forall2
import RegexLens.CommandLine.Inputs
import RegexLens.Proofs.CommandLine.Listing

/-! Operands stand for files in one order, whichever way their folders are listed. -/

namespace RegexLens

/-- The same place again, where a folder has distinct names and can list them in another order. -/
inductive Place.Relisted : Place → Place → Prop
  /-- A file lists nothing. -/
  | file (content : Content) : Place.Relisted (.file content) (.file content)
  /-- A folder and what is below it can be listed in any order. -/
  | folder {entries others : FileTree} (named : entries.WellNamed)
      (relisted : entries.Relisted others) : Place.Relisted (.folder entries) (.folder others)

/-- What is found in one order of listing, and what is found in another one. -/
abbrev FoundAgain (first second : Option Place) : Prop :=
  Option.Rel Place.Relisted first second

/-- A place is found again where nothing is listed in another order. -/
theorem FoundAgain.refl {found : Option Place}
    (named : ∀ entries, found = some (.folder entries) → entries.WellNamed) :
    FoundAgain found found := by
  -- Only a folder asks for something, since a file has no entries that could be out of order.
  cases found with
  | none => exact .none
  | some place =>
    cases place with
    | file content => exact .some (.file content)
    | folder entries => exact .some (.folder (named entries rfl) (.refl entries))

/-- What is found again can be found once more. -/
theorem FoundAgain.trans {first second third : Option Place} (one : FoundAgain first second)
    (more : FoundAgain second third) : FoundAgain first third := by
  -- A place that is found twice is the same file, or a folder that was listed again each time.
  cases one with
  | none => exact more
  | some same =>
    cases more with
    | some again =>
      cases same with
      | file content => exact .some again
      | folder named relisted =>
        cases again with
        | folder _ further => exact .some (.folder named (relisted.trans further))

namespace FileTree

/-- The folders in a folder have good names when it does. -/
theorem WellNamed.of_entry? {tree entries : FileTree} {wanted : Text} (named : tree.WellNamed)
    (found : tree.entry? wanted = some (.folder entries)) : entries.WellNamed := by
  -- The entry that is found is the one in front, or one of those behind it.
  induction tree using listing_induction with
  | nil => cases found
  | cons name place rest _ ih =>
    obtain ⟨_, _, inner, behind⟩ := wellNamed_cons.mp named
    rw [entry?_cons] at found
    split at found
    · exact inner entries (Option.some.inj found)
    · exact ih behind found

/-- A name leads to the same place in every order of listing. -/
theorem Relisted.entry? {tree other : FileTree} (relisted : tree.Relisted other)
    (named : tree.WellNamed) (wanted : Text) :
    FoundAgain ( tree.entry? wanted) ( other.entry? wanted) := by
  -- The induction is on the changes of order, and only a swap needs that the names differ.
  induction relisted with
  | nil => exact .none
  | file name content _ ih =>
    rw [ FileTree.entry?, FileTree.entry?]
    split
    · exact .some (.file content)
    · exact ih named.2.2
  | folder name inside _ _ ih =>
    rw [ FileTree.entry?, FileTree.entry?]
    split
    · exact .some (.folder named.2.2.1 inside)
    · exact ih named.2.2.2
  | swap name other first second rest =>
    -- The two names differ, so that neither entry hides the other.
    have fresh := (wellNamed_cons.mp named).2.1
    rw [names_cons, List.mem_cons, not_or] at fresh
    have same : FileTree.entry? (.cons name first (.cons other second rest)) wanted =
        FileTree.entry? (.cons other second (.cons name first rest)) wanted := by
      simp only [entry?_cons]
      split
      · rename_i equal
        rw [if_neg fun otherEqual => fresh.1 (equal.trans otherEqual.symm)]
      · rfl
    rw [← same]
    exact .refl fun entries found => named.of_entry? found
  -- The names stay distinct after the first changes, so that the others can be looked at.
  | trans one _ first second => exact (first named).trans (second (one.wellNamed named))

/-- A path leads to the same place in every order of listing. -/
theorem follow?_relisted {around others : List FileTree} {here there : Place}
    (outer : List.Forall₂ (fun tree other => tree.WellNamed ∧ tree.Relisted other) around others)
    (again : here.Relisted there) (names : List Text) :
    FoundAgain (follow? around here names) (follow? others there names) := by
  -- The induction is on the names of the path; the folders around are those that two dots lead to.
  induction names generalizing around others here there with
  | nil => exact .some again
  | cons name names ih =>
    cases again with
    -- Nothing lies below a file.
    | file content => exact .none
    | @folder entries inner named relisted =>
      simp only [follow?]
      split
      · -- A name that says nothing stays where it is.
        exact ih outer (.folder named relisted)
      · split
        · -- Two dots lead to the folder around, which was met on the way.
          cases outer with
          | nil => exact .none
          | cons first more => exact ih more (.folder first.1 first.2)
        · -- Any other name leads to an entry, and the folder becomes the innermost one around.
          have located := relisted.entry? named name
          generalize entries.entry? name = one at located ⊢
          generalize inner.entry? name = two at located ⊢
          cases located with
          | none => exact .none
          | some place => exact ih (.cons ⟨named, relisted⟩ outer) place

/-- A path from a folder leads to the same place in every order of listing. -/
theorem Relisted.at? {tree other : FileTree} (relisted : tree.Relisted other)
    (named : tree.WellNamed) (path : Text) : FoundAgain (tree.at? path) (other.at? path) := by
  -- An absolute path leads nowhere in both orders.
  unfold FileTree.at?
  split
  · exact .none
  · exact follow?_relisted .nil (.folder named relisted) _

end FileTree

/-- What paths lead to, where every folder that is found has distinct names without slashes. -/
structure FileSystem where
  /-- The place that a path leads to. -/
  find : Text → Option Place
  /-- Names do not hide each other, and none can be taken for two. -/
  named : ∀ path entries, find path = some (.folder entries) → entries.WellNamed

namespace FileSystem

/-- The same places, with folders that can list their entries in other orders. -/
def Relists (first second : FileSystem) : Prop :=
  ∀ path, FoundAgain (first.find path) (second.find path)

/-- The places that can be reached from a folder. -/
def ofTree (tree : FileTree) (named : tree.WellNamed) : FileSystem where
  find := tree.at?
  named := by
    -- What is found in a folder is found again in it, and what is found again has good names.
    intro path entries found
    have again := (FileTree.Relisted.refl tree).at? named path
    rw [found] at again
    cases again with
    | some same =>
      cases same with
      | folder inner _ => exact inner

/-- Folders that differ in the order of listing only make file systems that do too. -/
theorem ofTree_relists {tree other : FileTree} (relisted : tree.Relisted other)
    (named : tree.WellNamed) :
    (ofTree tree named).Relists (ofTree other (relisted.wellNamed named)) :=
  fun path => relisted.at? named path

end FileSystem

/-- The path to what names lead to below an operand: slashes stand between the names, and one behind
the operand, which can end in it already. -/
def pathBelow (operand : Text) (names : List Text) : Text :=
  (if ['/'] <:+ operand then operand else operand ++ ['/']) ++ ['/'].intercalate names

/-- Joining the names to the operand makes the path to what they lead to. -/
theorem joinNames_eq (operand : Text) (names : List Text) :
    joinNames operand names = pathBelow operand names := by
  -- An operand ends in a slash when that is its last character.
  have ends : operand.getLast? = some '/' ↔ ['/'] <:+ operand := by
    rw [List.getLast?_eq_some_iff]
    exact exists_congr fun front => eq_comm
  simp only [joinNames, pathBelow, ends]
  split
  · rw [List.append_nil]
  · rfl

/-- Different names below an operand make different paths. -/
theorem pathBelow_inj {operand : Text} {names others : List Text} (some : names ≠ [])
    (otherSome : others ≠ []) (plain : ∀ name ∈ names, '/' ∉ name)
    (otherPlain : ∀ name ∈ others, '/' ∉ name)
    (same : pathBelow operand names = pathBelow operand others) : names = others := by
  -- The operand and the separator come first in both, and the slashes give the names back.
  have joined := List.append_cancel_left same
  rw [← List.splitOn_intercalate '/' plain some, joined,
    List.splitOn_intercalate '/' otherPlain otherSome]

/-- What one operand stands for. -/
structure OperandInputs (system : FileSystem) (isRecursive : Bool) (operand : Text)
    (inputs : List Input) : Prop where
  /-- A hyphen is the standard input. -/
  hyphen : operand = ['-'] → inputs = [.standardInput]
  /-- A file is itself. -/
  file : operand ≠ ['-'] → ∀ content, system.find operand = some (.file content) →
    inputs = [.file operand content]
  /-- A folder is all files below it, in the order in which they are met when each folder on the
  way lists its files and folders in the order of the bytes of their names. -/
  folder : operand ≠ ['-'] → isRecursive = true →
    ∀ entries, system.find operand = some (.folder entries) →
      ∃ sorted, entries.Relisted sorted ∧
        sorted.Ascending (fun first second => nameBytes first < nameBytes second) ∧
        inputs = (sorted.files []).map fun file => .file (pathBelow operand file.1) file.2
  /-- These are the files that names lead to from the folder, and no others. -/
  complete : operand ≠ ['-'] → isRecursive = true →
    ∀ entries, system.find operand = some (.folder entries) → ∀ input, input ∈ inputs ↔
      ∃ names content, entries.Leads names content ∧
        input = .file (pathBelow operand names) content
  /-- Anything else is nothing. -/
  nothing : operand ≠ ['-'] → (∀ content, system.find operand ≠ some (.file content)) →
    (isRecursive = true → ∀ entries, system.find operand ≠ some (.folder entries)) → inputs = []
  /-- No name comes twice. -/
  distinct : (inputs.map Input.name).Nodup

/-- The files of a sorted folder as inputs have different names. -/
theorem nodup_inputs {sorted : FileTree} (named : sorted.WellNamed)
    (ascending : sorted.Ascending FileTree.Precedes) (operand : Text) :
    (((sorted.files []).map fun file => Input.file (pathBelow operand file.1) file.2).map
      Input.name).Nodup := by
  -- Names are different below the folder, and joining keeps them apart.
  rw [List.map_map, List.Nodup, List.pairwise_map]
  refine ascending.files.imp_of_mem ?_
  intro first second member otherMember ordered same
  -- A file is never the folder itself, so that some name leads to it.
  have some {file : List Text × Content} (member : file ∈ sorted.files []) : file.1 ≠ [] := by
    obtain ⟨name, _, more, starts⟩ := sorted.files_start file member
    exact starts ▸ List.cons_ne_nil name more
  exact ordered.2 (pathBelow_inj (some member) (some otherMember)
    (FileTree.plain_of_mem_files named first member)
    (FileTree.plain_of_mem_files named second otherMember) same)

/-- An operand stands for what it should stand for. -/
theorem operandInputs (system : FileSystem) (isRecursive : Bool) (operand : Text) :
    OperandInputs system isRecursive operand (inputsOf system.find isRecursive operand) := by
  by_cases hyphen : operand = ['-']
  · have only : inputsOf system.find isRecursive operand = [.standardInput] := if_pos hyphen
    rw [only]
    constructor <;> simp [hyphen]
  · -- What the operand leads to decides which of the statements says something.
    have named := system.named operand
    rw [inputsOf, if_neg hyphen]
    split
    · -- The files of a folder are those of its sorted listing, which answers all the questions.
      rename_i entries found
      obtain ⟨sorted, relisted, ascending⟩ := FileTree.exists_sorted (named entries found)
      cases isRecursive with
      | false => constructor <;> simp [hyphen, found]
      | true =>
        rw [if_pos rfl, relisted.sortedFiles ascending]
        simp only [joinNames_eq]
        constructor
        · exact fun equal => absurd equal hyphen
        · simp [found]
        · rintro - - others same
          cases found.symm.trans same
          exact ⟨sorted, relisted,
            ascending.imp fun first second precedes => nameBytes_lt precedes.1 precedes.2, rfl⟩
        · -- The sorted listing has the files of the folder, and the names of an entry lead to them.
          rintro - - others same input
          cases found.symm.trans same
          have member {names : List Text} {content : Content} :
              (names, content) ∈ sorted.files [] ↔ entries.Leads names content := by
            rw [← (relisted.files []).mem_iff, FileTree.mem_files_iff (named entries found)]
          rw [List.mem_map]
          constructor
          · rintro ⟨file, listed, rfl⟩
            exact ⟨file.1, file.2, member.mp listed, rfl⟩
          · rintro ⟨names, content, leads, rfl⟩
            exact ⟨_, member.mpr leads, rfl⟩
        · simp [found]
        · exact nodup_inputs (relisted.wellNamed (named entries found)) ascending operand
    · -- A file is its own input.
      rename_i content found
      constructor <;> simp [hyphen, found]
    · -- Nothing at all gives no input.
      rename_i found
      constructor <;> simp [hyphen, found]

/-- An operand stands for the same inputs whichever way folders are listed. -/
theorem inputsOf_relisted {system other : FileSystem} (relists : system.Relists other)
    (isRecursive : Bool) (operand : Text) :
    inputsOf other.find isRecursive operand = inputsOf system.find isRecursive operand := by
  -- Only a folder can be found in another order, and its sorted files are the same then.
  have again := relists operand
  unfold inputsOf
  generalize system.find operand = one at again ⊢
  generalize other.find operand = two at again ⊢
  cases again with
  | none => rfl
  | some place =>
    -- The files of a folder are sorted, so the order of listing does not show.
    cases place with
    | file content => rfl
    | folder named relisted => simp only [relisted.sortedFiles_eq named]

/-- Operands stand for the same inputs whichever way folders are listed. -/
theorem resolveInputs_relisted {system other : FileSystem} (relists : system.Relists other)
    (isRecursive : Bool) (operands : List Text) :
    resolveInputs other.find isRecursive operands =
      resolveInputs system.find isRecursive operands := by
  have same : inputsOf other.find isRecursive = inputsOf system.find isRecursive :=
    funext (inputsOf_relisted relists isRecursive)
  -- Operands are looked at one by one, and each of them stands for the same inputs.
  rw [resolveInputs, resolveInputs, same]

/-- The inputs are those of each operand in turn, whichever way folders are listed, and so they are
for the folders below any folder in which paths are looked up. -/
theorem resolveInputs_sorted (system : FileSystem) (isRecursive : Bool) (operands : List Text) :
    (operands = [] → resolveInputs system.find isRecursive operands = [.standardInput]) ∧
      (operands ≠ [] → ∃ inputs : List (List Input),
        List.Forall₂ (OperandInputs system isRecursive) operands inputs ∧
          resolveInputs system.find isRecursive operands = inputs.flatten) ∧
      (∀ other : FileSystem, system.Relists other →
        resolveInputs other.find isRecursive operands =
          resolveInputs system.find isRecursive operands) ∧
      ∀ tree other : FileTree, tree.WellNamed → tree.Relisted other →
        resolveInputs other.at? isRecursive operands =
          resolveInputs tree.at? isRecursive operands := by
  refine ⟨fun none => if_pos none, fun some => ?_, fun other relists => ?_, ?_⟩
  · -- Each operand has its own inputs, and they are joined in the order of the operands.
    refine ⟨operands.map (inputsOf system.find isRecursive), ?_, ?_⟩
    · rw [List.forall₂_map_right_iff, List.forall₂_same]
      exact fun operand _ => operandInputs system isRecursive operand
    · rw [resolveInputs, if_neg some, List.flatMap_def]
  · exact resolveInputs_relisted relists isRecursive operands
  · -- What can be reached from a folder is a file system as well.
    intro tree other named relisted
    exact resolveInputs_relisted (FileSystem.ofTree_relists relisted named) isRecursive operands

end RegexLens
