import RegexLens.Proofs.Pattern.ClassExtent

/-! The contents of a class as single characters and ranges, read greedily from the left. -/

namespace RegexLens

namespace ClassItem

/-- The units that a range can have as endpoints: a run falls apart into its characters. -/
def atoms : ClassItem → List ClassItem
  | run first others => (first :: others).map fun symbol => run symbol []
  -- A hyphen and an escape are units already.
  | hyphen => [hyphen]
  | escape sequence => [escape sequence]

/-- The atoms of an item are the item, cut into pieces. -/
theorem atoms_text (item : ClassItem) : item.atoms.flatMap text = item.text := by
  -- The characters of a run are its text.
  cases item with
  | run first others => simp [atoms, text, List.flatMap_map]
  | hyphen => rfl
  | escape sequence => simp [atoms]

/-- A long run falls apart into its first character and the run of the others. -/
theorem atoms_run (first next : Char) (others : Text) :
    (run first (next :: others)).atoms = run first [] :: (run next others).atoms := rfl

/-- An atom holds nothing that could be taken apart. -/
def IsAtom (item : ClassItem) : Prop :=
  item.atoms = [item]

/-- What an item falls apart into are atoms. -/
theorem isAtom_of_mem_atoms {item atom : ClassItem} (member : atom ∈ item.atoms) :
    atom.IsAtom := by
  -- A run gives runs of one character, and the other items give themselves.
  cases item with
  | run first others =>
    obtain ⟨symbol, _, rfl⟩ := List.mem_map.mp member
    rfl
  | hyphen => obtain rfl := List.mem_singleton.mp member; rfl
  | escape sequence => obtain rfl := List.mem_singleton.mp member; rfl

/-- An escape is an atom of nothing but itself. -/
theorem escape_mem_atoms {sequence : Text} {item : ClassItem} :
    escape sequence ∈ item.atoms ↔ item = escape sequence := by
  -- The atoms of a run are runs.
  cases item <;> simp [atoms, eq_comm]

end ClassItem

/-- The atoms of class contents: each escape is one atom, and every other character is one. -/
def atomsOf (contents : Text) : List ClassItem :=
  match contents with
  | [] => []
  | '-' :: tail => .hyphen :: atomsOf tail
  | '\\' :: tail =>
    -- A backslash takes as much of what follows as it can apply to.
    .escape (tail.take (classEscapeLength tail)) :: atomsOf (tail.drop (classEscapeLength tail))
  | symbol :: tail => .run symbol [] :: atomsOf tail
termination_by contents.length

/-- Class contents with the atoms into which they fall apart: a backslash takes as much as it can
apply to, and every other character is an atom alone. -/
inductive CutsAtoms : Text → List ClassItem → Prop
  | nil : CutsAtoms [] []
  | hyphen (rest : Text) (atoms : List ClassItem) (others : CutsAtoms rest atoms) :
      CutsAtoms ('-' :: rest) (.hyphen :: atoms)
  | escape (sequence rest : Text) (atoms : List ClassItem)
      (longest : LongestFront ClassEscaped (sequence ++ rest) sequence.length)
      (others : CutsAtoms rest atoms) :
      CutsAtoms ('\\' :: (sequence ++ rest)) (.escape sequence :: atoms)
  | character (symbol : Char) (rest : Text) (atoms : List ClassItem)
      (ordinary : symbol ≠ '-' ∧ symbol ≠ '\\') (others : CutsAtoms rest atoms) :
      CutsAtoms (symbol :: rest) (.run symbol [] :: atoms)

/-- Contents fall apart into atoms in one way, which is the one that is found. -/
theorem cutsAtoms_iff {contents : Text} {atoms : List ClassItem} :
    CutsAtoms contents atoms ↔ atoms = atomsOf contents := by
  constructor
  · intro cuts
    -- The contents are cut from the front, and each character belongs to one kind of atom.
    induction cuts with
    | nil => simp [atomsOf]
    | hyphen rest atoms others ih => rw [atomsOf, ih]
    | escape sequence rest atoms longest others ih =>
      -- Two front parts that are both the longest one have the same length.
      have size := longest.unique (longest_classEscaped (sequence ++ rest))
      have cut := List.take_append_drop (classEscapeLength (sequence ++ rest)) (sequence ++ rest)
      obtain ⟨front, behind⟩ := List.append_inj cut size.symm
      rw [atomsOf, front, behind, ih]
    | character symbol rest atoms ordinary others ih =>
      rw [atomsOf.eq_4 symbol rest ordinary.1 ordinary.2, ih]
  · rintro rfl
    -- What is found is cut in the order in which the atoms are found.
    fun_induction atomsOf contents with
    | case1 => exact .nil
    | case2 tail ih => exact .hyphen tail _ ih
    | case3 tail ih =>
      have cut := List.take_append_drop (classEscapeLength tail) tail
      have cuts := CutsAtoms.escape (tail.take (classEscapeLength tail))
        (tail.drop (classEscapeLength tail)) _ (by rw [cut]; exact longest_classEscaped tail) ih
      rwa [cut] at cuts
    | case4 symbol tail hyphen backslash ih => exact .character symbol tail _ ⟨hyphen, backslash⟩ ih

/-- Characters that are neither hyphens nor backslashes are atoms one by one. -/
theorem atomsOf_append {front : Text} (rest : Text)
    (ordinary : ∀ symbol ∈ front, symbol ≠ '\\' ∧ symbol ≠ '-') :
    atomsOf (front ++ rest) = front.map (fun symbol => .run symbol []) ++ atomsOf rest := by
  induction front with
  | nil => rfl
  | cons symbol front ih =>
    obtain ⟨⟨backslash, hyphen⟩, others⟩ := List.forall_mem_cons.mp ordinary
    -- Neither of the clauses for special characters applies.
    rw [List.cons_append, atomsOf.eq_4 symbol _ hyphen backslash, ih others]
    rfl

/-- The atoms of class contents are what the items of the contents fall apart into. -/
theorem atoms_all (contents : Text) :
    (ClassItem.all contents).flatMap ClassItem.atoms = atomsOf contents := by
  -- Each item falls apart into the atoms at the front of what is left.
  fun_induction ClassItem.all contents with
  | case1 => simp [atomsOf]
  | case2 symbol tail item ih =>
    rw [List.flatMap_cons, ih]
    simp only [item]
    fun_cases ClassItem.first symbol tail with
    -- A hyphen is an atom of its own.
    | case1 => simp [atomsOf, ClassItem.atoms, ClassItem.text]
    | case2 =>
      -- The escape takes up what the backslash applies to.
      have behind : tail.drop (tail.take (classEscapeLength tail)).length =
          tail.drop (classEscapeLength tail) := by simp [List.drop_eq_drop_iff]
      simp only [ClassItem.text, List.length_cons, Nat.add_sub_cancel, behind, atomsOf]
      rfl
    | case3 =>
      rename_i hyphen backslash
      -- A run stops in front of the next special character.
      have ordinary : ∀ next ∈ symbol :: tail.takeWhile (fun next => next != '\\' && next != '-'),
          next ≠ '\\' ∧ next ≠ '-' := by
        refine List.forall_mem_cons.mpr ⟨⟨backslash, hyphen⟩, fun next member => ?_⟩
        simpa using List.all_eq_true.mp List.all_takeWhile next member
      have cut : tail.takeWhile (fun next => next != '\\' && next != '-') ++
          tail.dropWhile (fun next => next != '\\' && next != '-') = tail :=
        List.takeWhile_append_dropWhile
      clear ih item
      generalize tail.takeWhile (fun next => next != '\\' && next != '-') = front at ordinary cut ⊢
      generalize tail.dropWhile (fun next => next != '\\' && next != '-') = rest at cut
      subst cut
      simp only [ClassItem.atoms, ClassItem.text, List.length_cons, Nat.add_sub_cancel]
      rw [List.drop_left, ← List.cons_append, atomsOf_append rest ordinary]

/-- The code of an atom is the one that the atom is meant to denote. -/
theorem itemCode_iff_of_mem_atomsOf {contents : Text} {atom : ClassItem}
    (member : atom ∈ atomsOf contents) {code? : Option Nat} :
    ItemCode atom code? ↔ atom.code? = code? := by
  rw [← atoms_all] at member
  obtain ⟨item, cut, inside⟩ := List.mem_flatMap.mp member
  -- The code of a character is its own, and that of a hyphen is known.
  cases atom with
  | run symbol others =>
    refine ⟨ItemCode.eq_code?, ?_⟩
    rintro rfl
    exact .run symbol others
  | hyphen =>
    refine ⟨ItemCode.eq_code?, ?_⟩
    rintro rfl
    exact .hyphen
  | escape sequence =>
    -- An escape is an item of the contents, so its sequence has one of the known forms.
    obtain rfl := ClassItem.escape_mem_atoms.mp inside
    exact (ClassItem.all_shaped contents _ cut).itemCode_iff

/-- A member of a class. -/
inductive ClassMember
  /-- One atom that stands for itself. -/
  | single (atom : ClassItem)
  /-- A range between two atoms. -/
  | range (low high : ClassItem)
deriving DecidableEq, Repr

namespace ClassMember

/-- The members that atoms form: a hyphen with an atom on both sides forms a range with them. -/
def all : List ClassItem → List ClassMember
  | low :: .hyphen :: high :: rest => range low high :: all rest
  | atom :: rest => single atom :: all rest
  | [] => []

/-- The atoms that a member consists of, apart from the hyphen of a range. -/
def atoms : ClassMember → List ClassItem
  | single atom => [atom]
  | range low high => [low, high]

/-- Every atom of a member is one of the atoms that the members are formed of. -/
theorem atoms_subset_of_mem_all {items : List ClassItem} {member : ClassMember}
    (formed : member ∈ all items) : ∀ atom ∈ member.atoms, atom ∈ items := by
  fun_induction all items with
  -- The first member takes the first three atoms, and one of them is the hyphen.
  | case1 low high rest ih =>
    intro atom inside
    rcases List.mem_cons.mp formed with rfl | formed
    · simp only [atoms, List.mem_cons, List.not_mem_nil, or_false] at inside
      rcases inside with rfl | rfl <;> simp
    · simp [ih formed atom inside]
  -- The first member is the first atom.
  | case2 atom rest _ ih =>
    intro other inside
    rcases List.mem_cons.mp formed with rfl | formed
    · simp only [atoms, List.mem_cons, List.not_mem_nil, or_false] at inside
      simp [inside]
    · simp [ih formed other inside]
  | case3 => contradiction

/-- The endpoints of a range are among the atoms that the members are formed of. -/
theorem endpoints_mem {items : List ClassItem} {low high : ClassItem}
    (formed : range low high ∈ all items) : low ∈ items ∧ high ∈ items :=
  ⟨atoms_subset_of_mem_all formed low (by simp [atoms]),
    atoms_subset_of_mem_all formed high (by simp [atoms])⟩

/-- Atoms form at least one member. -/
theorem all_ne_nil {items : List ClassItem} (nonempty : items ≠ []) : all items ≠ [] := by
  -- The first atom is part of some member.
  fun_cases all items with
  | case1 => simp
  | case2 => simp
  | case3 => contradiction

/-- Why a range is faulty, if it is: out of order, or with a shorthand class as an endpoint. -/
def rangeFault? (low high : ClassItem) : Option Fault :=
  let reversed : Bool :=
    -- An endpoint without a code is in order with every other one.
    match low.code?, high.code? with
    | some first, some last => last < first
    | _, _ => false
  if reversed then some .reversedRange
  else if low.isMetaclass || high.isMetaclass then some .metaclassEndpoint
  else none

/-- A range without a fault has endpoints in order, none of which is a shorthand class. -/
theorem rangeFault?_eq_none {low high : ClassItem} :
    rangeFault? low high = none ↔ low.isMetaclass = false ∧ high.isMetaclass = false ∧
      ∀ first ∈ low.code?, ∀ last ∈ high.code?, first ≤ last := by
  -- Only two codes can be out of order.
  cases first : low.code? with
  | none => simp [rangeFault?, first]
  | some least =>
    cases last : high.code? with
    | none => simp [rangeFault?, first, last]
    | some greatest =>
      -- The codes are compared the other way round.
      by_cases reversed : greatest < least
      · simp [rangeFault?, first, last, reversed]
      · simp [rangeFault?, first, last, reversed, Nat.le_of_not_lt reversed]

end ClassMember

/-- The atoms of the contents of a class, in order. -/
def classAtoms (text : Text) : List ClassItem :=
  atomsOf (ClassParts.split text).contents

/-- The members of a class, in order. -/
def classMembers (text : Text) : List ClassMember :=
  ClassMember.all (classAtoms text)

/-- The atoms of a class are what its items fall apart into. -/
theorem atoms_classItems (text : Text) :
    (ClassItem.all (ClassParts.split text).contents).flatMap ClassItem.atoms = classAtoms text :=
  atoms_all _

/-- The atoms of a class are its contents, cut into pieces. -/
theorem classAtoms_text (text : Text) :
    (classAtoms text).flatMap ClassItem.text = (ClassParts.split text).contents := by
  have each : ∀ item : ClassItem, item.atoms.flatMap ClassItem.text = item.text :=
    ClassItem.atoms_text
  -- Taking the items apart does not change their texts.
  simp only [← atoms_classItems, List.flatMap_assoc, each, ClassItem.all_text]

/-- An escape is an atom of a class when it is an item of it. -/
theorem escape_mem_classAtoms {text sequence : Text} :
    .escape sequence ∈ classAtoms text ↔
      .escape sequence ∈ ClassItem.all (ClassParts.split text).contents := by
  simp [← atoms_classItems, ClassItem.escape_mem_atoms]

/-- The atoms of a class without faults. -/
structure GoodAtoms (atoms : List ClassItem) : Prop where
  /-- No escape lacks its digits or its letter. -/
  complete : ∀ letter ∈ ['c', 'u', 'x'], .escape [letter] ∉ atoms
  /-- No range has a shorthand class as an endpoint. -/
  characters : ∀ low high, .range low high ∈ ClassMember.all atoms →
    ∀ letter ∈ ['d', 'D', 's', 'S', 'w', 'W'], low ≠ .escape [letter] ∧ high ≠ .escape [letter]
  /-- No range is out of order. -/
  ordered : ∀ low high, .range low high ∈ ClassMember.all atoms →
    ∀ first last, ItemCode low (some first) → ItemCode high (some last) → first ≤ last

/-- A class without faults has its closing bracket and nothing wrong with the atoms in it. -/
def GoodClass (text : Text) : Prop :=
  ∃ (parts : ClassParts) (atoms : List ClassItem), parts.Cuts text ∧ parts.closing = [']'] ∧
    CutsAtoms parts.contents atoms ∧ GoodAtoms atoms

namespace ClassItem

/-- An item is a shorthand class if it is an escape that names one. -/
def IsShorthand : ClassItem → Prop
  | escape sequence => RegexLens.IsShorthand sequence
  | run _ _ | hyphen => False

/-- The shorthand classes are found among the escapes. -/
theorem isShorthand_iff {item : ClassItem} : item.IsShorthand ↔ item.isMetaclass = true := by
  cases item with
  | run first others => simp [IsShorthand, isMetaclass]
  | hyphen => simp [IsShorthand, isMetaclass]
  | escape sequence => exact RegexLens.isShorthand_iff

/-- Whether an item is a shorthand class can be checked. -/
instance (item : ClassItem) : Decidable item.IsShorthand :=
  decidable_of_iff' _ isShorthand_iff

/-- An item is a shorthand class if it is the escape of one of six letters. -/
theorem isMetaclass_eq_false {item : ClassItem} :
    item.isMetaclass = false ↔
      ∀ letter ∈ ['d', 'D', 's', 'S', 'w', 'W'], item ≠ .escape [letter] := by
  -- Only an escape can be a shorthand class.
  cases item with
  | run first others => simp [isMetaclass]
  | hyphen => simp [isMetaclass]
  | escape sequence => simp [isMetaclass, RegexLens.isMetaclass]

end ClassItem

/-- Contents without faults have complete escapes, and their ranges have no fault. -/
theorem goodAtoms_iff {contents : Text} :
    GoodAtoms (atomsOf contents) ↔
      (∀ sequence, .escape sequence ∈ atomsOf contents → isIncomplete sequence = false) ∧
        ∀ low high, .range low high ∈ ClassMember.all (atomsOf contents) →
          ClassMember.rangeFault? low high = none := by
  constructor
  · -- The conditions on atoms exclude each of the three faults.
    rintro ⟨complete, characters, ordered⟩
    refine ⟨fun sequence member => ?_, fun low high member => ?_⟩
    · -- An incomplete escape would be one of three letters.
      rw [Bool.eq_false_iff]
      intro incomplete
      simp only [isIncomplete, List.contains_iff_mem, List.mem_cons, List.not_mem_nil, or_false]
        at incomplete
      rcases incomplete with rfl | rfl | rfl <;> exact complete _ (by decide) member
    · refine ClassMember.rangeFault?_eq_none.mpr ⟨?_, ?_, ?_⟩
      · exact ClassItem.isMetaclass_eq_false.mpr fun letter known =>
          (characters low high member letter known).1
      · exact ClassItem.isMetaclass_eq_false.mpr fun letter known =>
          (characters low high member letter known).2
      · -- The codes that are found are those that the endpoints are meant to denote.
        obtain ⟨lowInside, highInside⟩ := ClassMember.endpoints_mem member
        intro first found last other
        exact ordered low high member first last ((itemCode_iff_of_mem_atomsOf lowInside).mpr found)
          ((itemCode_iff_of_mem_atomsOf highInside).mpr other)
  · -- Read backwards, an atom that breaks a condition would be a fault.
    rintro ⟨complete, faultless⟩
    refine ⟨fun letter known member => ?_, fun low high member letter known => ?_,
      fun low high member first last lowCode highCode => ?_⟩
    · -- One letter that needs more behind it is incomplete when it stands alone.
      have whole := complete [letter] member
      simp only [List.mem_cons, List.not_mem_nil, or_false] at known
      rcases known with rfl | rfl | rfl <;> contradiction
    · obtain ⟨lowPlain, highPlain, _⟩ := ClassMember.rangeFault?_eq_none.mp
        (faultless low high member)
      exact ⟨ClassItem.isMetaclass_eq_false.mp lowPlain letter known,
        ClassItem.isMetaclass_eq_false.mp highPlain letter known⟩
    · -- What the endpoints are meant to denote is what is found for them.
      obtain ⟨_, _, ordered⟩ := ClassMember.rangeFault?_eq_none.mp (faultless low high member)
      exact ordered first lowCode.eq_code? last highCode.eq_code?

namespace GoodClass

variable {text : Text}

/-- A class without faults is closed, and its atoms have none either, as they are cut off. -/
theorem split (good : GoodClass text) :
    (ClassParts.split text).isClosed = true ∧ GoodAtoms (classAtoms text) := by
  obtain ⟨parts, atoms, cuts, closing, atomsCut, good⟩ := good
  obtain rfl := cutsAtoms_iff.mp atomsCut
  rw [classAtoms, ← cuts.eq_split]
  exact ⟨by simp [ClassParts.isClosed, closing], good⟩

/-- A class without faults has its closing bracket. -/
theorem closed (good : GoodClass text) : (ClassParts.split text).isClosed = true :=
  good.split.1

/-- No escape of a class without faults lacks its digits or its letter. -/
theorem complete (good : GoodClass text) (sequence : Text)
    (member : .escape sequence ∈ classAtoms text) : isIncomplete sequence = false :=
  (goodAtoms_iff.mp good.split.2).1 sequence member

/-- The ranges of a class without faults have none either. -/
theorem faultless (good : GoodClass text) {low high : ClassItem}
    (member : .range low high ∈ classMembers text) : ClassMember.rangeFault? low high = none :=
  (goodAtoms_iff.mp good.split.2).2 low high member

end GoodClass

/-- A class has no faults if it is closed and its atoms have none, as they are cut off. -/
theorem goodClass_iff {tail : Text} :
    GoodClass ('[' :: tail) ↔ (ClassParts.split ('[' :: tail)).isClosed = true ∧
      GoodAtoms (classAtoms ('[' :: tail)) := by
  refine ⟨GoodClass.split, ?_⟩
  rintro ⟨closed, good⟩
  -- The parts of a class are unique, and so are its atoms.
  exact ⟨_, _, ClassParts.cuts_split tail, ClassParts.closing_of_isClosed closed,
    cutsAtoms_iff.mpr rfl, good⟩

end RegexLens
