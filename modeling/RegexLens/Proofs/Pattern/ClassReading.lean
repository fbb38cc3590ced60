import RegexLens.Proofs.Markup.Building
import RegexLens.Proofs.Pattern.ClassMembers

/-! The reading of a closed class shows its members, one after another, and nothing else. -/

namespace RegexLens

/-- How an item of a class is shown. -/
inductive ItemMark
  /-- As text. -/
  | plain
  /-- In a style of its own. -/
  | styled (style : Style)
  /-- As an error. -/
  | flagged (fault : Fault)
deriving DecidableEq, Repr

namespace ClassItem

/-- How an item is shown when it is no hyphen of a range. -/
def mark : ClassItem → ItemMark
  | run _ _ | hyphen => .plain
  | escape sequence =>
    if sequence = [] then .flagged .danglingBackslash
    else if isIncomplete sequence then .flagged .incompleteEscape
    else if RegexLens.isMetaclass sequence then .styled .metaclass
    else .styled .special

/-- No item shows itself in the style of errors without being one. -/
theorem mark_ne_styled_error (item : ClassItem) : item.mark ≠ .styled .error := by
  -- Text is plain, and an escape is either flagged or in one of two other styles.
  cases item with
  | run first others => simp [mark]
  | hyphen => simp [mark]
  | escape sequence =>
    simp only [mark]
    split
    · simp
    · split
      · simp
      · split <;> simp

/-- An incomplete escape is no shorthand class. -/
theorem isMetaclass_of_isIncomplete {sequence : Text} (incomplete : isIncomplete sequence = true) :
    RegexLens.isMetaclass sequence = false := by
  -- Only three letters need something behind them, and none of them names a class.
  have known : sequence = ['c'] ∨ sequence = ['u'] ∨ sequence = ['x'] := by
    simpa [isIncomplete] using incomplete
  rcases known with rfl | rfl | rfl <;> rfl

end ClassItem

namespace ClassMember

/-- How the hyphen of a range is shown. -/
def hyphenMark (low high : ClassItem) : ItemMark :=
  match rangeFault? low high with
  | some fault => .flagged fault
  | none => .styled .range

/-- The atoms of a member, each with the way in which it is shown. -/
def marked : ClassMember → List (ClassItem × ItemMark)
  | single atom => [(atom, atom.mark)]
  -- The endpoints of a range are shown as if they stood alone.
  | range low high => [(low, low.mark), (.hyphen, hyphenMark low high), (high, high.mark)]

end ClassMember

/-- The atoms of a class, each with the way in which it is shown: the hyphen between two atoms by the
range that it forms, and a last one as a range too while its right endpoint can still be written. -/
def atomMarks (closed : Bool) : List ClassItem → List (ClassItem × ItemMark)
  | low :: .hyphen :: high :: rest =>
    (low, low.mark) :: (.hyphen, ClassMember.hyphenMark low high) :: (high, high.mark) ::
      atomMarks closed rest
  | [low, .hyphen] => [(low, low.mark), (.hyphen, if closed then .plain else .styled .range)]
  | atom :: rest => (atom, atom.mark) :: atomMarks closed rest
  | [] => []

/-- In a closed class the atoms are shown as its members. -/
theorem atomMarks_closed (atoms : List ClassItem) :
    atomMarks true atoms = (ClassMember.all atoms).flatMap ClassMember.marked := by
  -- A last hyphen is a member of its own, and so is the atom in front of it.
  fun_induction atomMarks true atoms with
  | case1 low high rest ih => simp [ClassMember.all, ClassMember.marked, ih]
  | case2 low => simp [ClassMember.all, ClassMember.marked, ClassItem.mark]
  | case3 atom rest noRange _ ih =>
    rw [ClassMember.all.eq_2 atom rest noRange, List.flatMap_cons, ih]
    rfl
  | case4 => rfl

/-- The marked atoms are the atoms, none left out and none shown twice. -/
theorem atomMarks_items (closed : Bool) (atoms : List ClassItem) :
    (atomMarks closed atoms).map Prod.fst = atoms := by
  fun_induction atomMarks closed atoms <;> simp_all

/-- No atom is shown in the style of errors without being one. -/
theorem atomMarks_ne_styled_error (closed : Bool) (atoms : List ClassItem) :
    ∀ shown ∈ atomMarks closed atoms, shown.2 ≠ .styled .error := by
  fun_induction atomMarks closed atoms with
  | case1 low high rest ih =>
    -- The hyphen of a range is flagged or has the style of ranges.
    have hyphen : ClassMember.hyphenMark low high ≠ .styled .error := by
      unfold ClassMember.hyphenMark
      split <;> simp
    simpa [low.mark_ne_styled_error, high.mark_ne_styled_error, hyphen] using ih
  | case2 low => cases closed <;> simp [low.mark_ne_styled_error]
  | case3 atom rest _ _ ih => simpa [atom.mark_ne_styled_error] using ih
  | case4 => simp

namespace ClassReading

/-- Shows an item, without any thought of what follows. -/
def emit (reading : ClassReading) (shown : ClassItem × ItemMark) : ClassReading :=
  match shown.2 with
  | .plain => reading.plain shown.1
  | .styled style => reading.styled style shown.1
  | .flagged fault => reading.flagged fault shown.1

/-- Two readings that have shown the same, whatever they expect next. -/
structure SameOutput (first second : ClassReading) : Prop where
  /-- The styled items are the same. -/
  markup : first.markup = second.markup
  /-- The faults are the same. -/
  diagnostics : first.diagnostics = second.diagnostics
  /-- The next item stands at the same offset. -/
  offset : first.offset = second.offset

namespace SameOutput

/-- Showing one more item keeps readings equal in what they have shown. -/
theorem emit {first second : ClassReading} (same : SameOutput first second)
    (shown : ClassItem × ItemMark) : SameOutput (first.emit shown) (second.emit shown) := by
  obtain ⟨item, mark⟩ := shown
  -- What an item adds depends on the item and on what is already there.
  cases mark <;>
    constructor <;> simp [ClassReading.emit, plain, styled, flagged, same.markup, same.diagnostics,
      same.offset]

/-- Showing any number of items keeps readings equal in what they have shown. -/
theorem foldl {first second : ClassReading} (same : SameOutput first second)
    (items : List (ClassItem × ItemMark)) :
    SameOutput (items.foldl ClassReading.emit first) (items.foldl ClassReading.emit second) := by
  induction items generalizing first second with
  | nil => exact same
  | cons shown rest ih => exact ih (same.emit shown)

/-- Readings can be compared through a third one. -/
theorem trans {first second third : ClassReading} (left : SameOutput first second)
    (right : SameOutput second third) : SameOutput first third :=
  ⟨left.markup.trans right.markup, left.diagnostics.trans right.diagnostics,
    left.offset.trans right.offset⟩

end SameOutput

/-- Reads an atom that is no hyphen of a range. -/
def readAtom (reading : ClassReading) : ClassItem → ClassReading
  | .hyphen => (reading.plain .hyphen).remember .ordinary (some '-'.toNat)
  | .escape sequence => reading.readEscape sequence
  | .run first others => reading.readRun first others

/-- Reading an atom shows it in the way that its kind prescribes. -/
theorem readAtom_output (reading : ClassReading) (atom : ClassItem) :
    SameOutput (reading.readAtom atom) (reading.emit (atom, atom.mark)) := by
  cases atom with
  | run first others => exact ⟨rfl, rfl, rfl⟩
  | hyphen => exact ⟨rfl, rfl, rfl⟩
  | escape sequence =>
    -- The four kinds of escapes are told apart in the same order.
    simp only [readAtom, readEscape, ClassItem.mark]
    split
    · exact ⟨rfl, rfl, rfl⟩
    · split
      · exact ⟨rfl, rfl, rfl⟩
      · split <;> exact ⟨rfl, rfl, rfl⟩

/-- After an atom a hyphen can form a range, unless the atom closed a range itself. -/
theorem readAtom_state (reading : ClassReading) {atom : ClassItem} (whole : atom.IsAtom)
    (applied : atom ≠ .escape []) :
    (reading.readAtom atom).rangeable = (reading.role != .rangeHyphen) ∧
      (reading.readAtom atom).role = (if atom.isMetaclass then .metaclass else .ordinary) ∧
      (reading.readAtom atom).code? = atom.code? := by
  cases atom with
  | run first others =>
    -- The run of an atom holds one character, so it leaves no further characters behind.
    have alone : others = [] := by simpa [ClassItem.IsAtom, ClassItem.atoms] using whole
    subst others
    simp [readAtom, readRun, ClassItem.isMetaclass, ClassItem.code?]
  | hyphen => simp [readAtom, remember, plain, ClassItem.isMetaclass, ClassItem.code?]
  | escape sequence =>
    -- Nothing is flagged as dangling, since the backslash applies to something.
    have nonempty : sequence ≠ [] := by simpa using applied
    simp only [readAtom, readEscape, if_neg nonempty, ClassItem.isMetaclass, ClassItem.code?]
    split
    · rename_i incomplete
      -- An incomplete escape has no code, and so has a shorthand class.
      have unnamed := ClassItem.isMetaclass_of_isIncomplete incomplete
      have codeless := sequenceCode?_eq_none (.inr (.inr incomplete))
      simp [remember, flagged, styled, unnamed, codeless]
    · split
      · rename_i metaclass
        have codeless := sequenceCode?_eq_none (.inr (.inl metaclass))
        simp [remember, styled, metaclass, codeless]
      · rename_i ordinary
        simp [remember, styled, ordinary]

/-- Reading an atom that is no hyphen goes on behind it, whatever follows. -/
theorem readAll_cons (reading : ClassReading) (closed : Bool) {atom : ClassItem}
    (other : atom ≠ .hyphen) (rest : List ClassItem) :
    reading.readAll closed (atom :: rest) = (reading.readAtom atom).readAll closed rest := by
  cases atom with
  | run first others => rfl
  | hyphen => contradiction
  | escape sequence => rfl

/-- A run is read like its first character and then the run of the others. -/
theorem readRun_cons (reading : ClassReading) (first next : Char) (others : Text) :
    reading.readRun first (next :: others) = (reading.readRun first []).readRun next others := by
  have last : (next :: others).getLastD first = others.getLastD next := by cases others <;> rfl
  have several : (next :: others != []) = true := rfl
  -- Behind the first character another range can open, as behind any run of several characters.
  have opens : (ItemRole.ordinary != .rangeHyphen) = true := rfl
  simp only [readRun, plain, ClassItem.text, Markup.pushText_pushText, last, several, opens,
    Bool.true_or, Bool.or_true, List.singleton_append, byteSize_cons, byteSize_nil, Nat.add_zero,
    Nat.add_assoc]

/-- A run is read like its characters one by one. -/
theorem readAll_run (reading : ClassReading) (closed : Bool) (first : Char) (others : Text)
    (rest : List ClassItem) :
    reading.readAll closed (.run first others :: rest) =
      reading.readAll closed ((ClassItem.run first others).atoms ++ rest) := by
  -- The others are the run that is left behind the first character.
  induction others generalizing reading first with
  | nil => rfl
  | cons next others ih =>
    rw [ClassItem.atoms_run, List.cons_append, readAll_cons _ _ (by simp),
      readAll_cons _ _ (by simp), ← ih]
    simp only [readAtom, readRun_cons]
    rfl

/-- What a hyphen forms with the item behind it depends on the first atom of that item only. -/
theorem readHyphen_head_atoms (reading : ClassReading) (closed : Bool) (items : List ClassItem) :
    reading.readHyphen closed items.head? =
      reading.readHyphen closed (items.flatMap ClassItem.atoms).head? := by
  cases items with
  | nil => rfl
  | cons item rest =>
    -- The first character of a run is all that the hyphen looks at.
    cases item with
    | run first others => simp [ClassItem.atoms, readHyphen, rangeFault?, ClassItem.code?,
        ClassItem.isMetaclass]
    | hyphen => rfl
    | escape sequence => rfl

/-- A class is read like its atoms. -/
theorem readAll_atoms (reading : ClassReading) (closed : Bool) (items : List ClassItem) :
    reading.readAll closed items = reading.readAll closed (items.flatMap ClassItem.atoms) := by
  induction items generalizing reading with
  | nil => rfl
  | cons item rest ih =>
    rw [List.flatMap_cons]
    cases item with
    | run first others =>
      rw [← readAll_run, readAll_cons _ _ (by simp), readAll_cons _ _ (by simp), ih]
    | hyphen =>
      -- The hyphen is an atom itself, but the item behind it is cut further.
      simp only [ClassItem.atoms, List.cons_append, List.nil_append, readAll]
      rw [ih, readHyphen_head_atoms]
    | escape sequence =>
      simp only [ClassItem.atoms, List.cons_append, List.nil_append]
      rw [readAll_cons _ _ (by simp), readAll_cons _ _ (by simp), ih]

/-- The atoms that follow begin with a hyphen that has an atom behind it. -/
def StartsRange (atoms : List ClassItem) : Prop :=
  ∃ high rest, atoms = .hyphen :: high :: rest

/-- An atom is read by its kind when it is no hyphen that could form a range. -/
theorem readAll_front (reading : ClassReading) (closed : Bool) {atom : ClassItem}
    (rest : List ClassItem) (settled : atom = .hyphen → reading.rangeable = false) :
    reading.readAll closed (atom :: rest) = (reading.readAtom atom).readAll closed rest := by
  by_cases hyphen : atom = .hyphen
  · subst hyphen
    -- A hyphen without a left endpoint is text.
    simp [readAll, readHyphen, settled rfl, readAtom]
  · exact readAll_cons reading closed hyphen rest

/-- The fault that a hyphen finds between two atoms is that of the range between them. -/
theorem rangeFault?_eq (reading : ClassReading) {low : ClassItem} (high : ClassItem)
    (role : reading.role = if low.isMetaclass then .metaclass else .ordinary)
    (code : reading.code? = low.code?) :
    reading.rangeFault? high = ClassMember.rangeFault? low high := by
  unfold rangeFault? ClassMember.rangeFault?
  -- Both look at the kinds and the codes of the endpoints only.
  rw [role, code]
  cases low.isMetaclass <;> cases high.isMetaclass <;> rfl

/-- A hyphen between two atoms forms a range, which the atom behind it will close. -/
theorem readHyphen_between (reading : ClassReading) (closed : Bool) {low : ClassItem}
    (high : ClassItem) (rangeable : reading.rangeable = true)
    (role : reading.role = if low.isMetaclass then .metaclass else .ordinary)
    (code : reading.code? = low.code?) :
    SameOutput (reading.readHyphen closed (some high))
        (reading.emit (.hyphen, ClassMember.hyphenMark low high)) ∧
      (reading.readHyphen closed (some high)).rangeable = false ∧
      (reading.readHyphen closed (some high)).role = .rangeHyphen := by
  simp only [readHyphen, rangeable, Bool.not_true, Bool.false_eq_true, if_false,
    rangeFault?_eq reading high role code, ClassMember.hyphenMark]
  -- With a fault or without one, the hyphen is shown and waits for its right endpoint.
  cases ClassMember.rangeFault? low high with
  | none => exact ⟨⟨rfl, rfl, rfl⟩, trivial, trivial⟩
  | some fault => exact ⟨⟨rfl, rfl, rfl⟩, trivial, trivial⟩

/-- A last hyphen behind an atom is text, unless the class could go on with its right endpoint. -/
theorem readHyphen_last (reading : ClassReading) (closed : Bool)
    (rangeable : reading.rangeable = true) :
    reading.readHyphen closed none =
      reading.emit (.hyphen, if closed then .plain else .styled .range) := by
  simp only [readHyphen, rangeable, Bool.not_true, Bool.false_eq_true, if_false]
  cases closed <;> rfl

/-- A backslash that applies to nothing can only be the last atom. -/
def DanglesLast : List ClassItem → Prop
  | [] => True
  | atom :: rest => (atom = .escape [] → rest = []) ∧ DanglesLast rest

/-- Reading the atoms of a class shows each of them, with hyphens that form ranges greedily. -/
theorem readAll_atomMarks (reading : ClassReading) (closed : Bool) (atoms : List ClassItem)
    (whole : ∀ atom ∈ atoms, atom.IsAtom) (dangles : DanglesLast atoms)
    (role : atoms ≠ [] → reading.role ≠ .rangeHyphen)
    (settled : atoms.head? = some .hyphen → reading.rangeable = false) :
    SameOutput (reading.readAll closed atoms) ((atomMarks closed atoms).foldl emit reading) := by
  -- In front of each range and of each single atom, a hyphen could form no range.
  fun_induction atomMarks closed atoms generalizing reading with
  | case1 low high rest ih =>
    simp only [List.forall_mem_cons] at whole
    obtain ⟨lowWhole, -, highWhole, whole⟩ := whole
    obtain ⟨lowApplied, -, highApplied, dangles⟩ := dangles
    -- The left endpoint lets the hyphen form a range.
    obtain ⟨opens, lowRole, lowCode⟩ := readAtom_state reading lowWhole (by simpa using lowApplied)
    rw [bne_iff_ne.mpr (role (by simp))] at opens
    obtain ⟨shown, closes, hyphenRole⟩ := readHyphen_between _ closed high opens lowRole lowCode
    rw [readAll_front reading closed _ (by simpa using settled)]
    show SameOutput (((reading.readAtom low).readHyphen closed (some high)).readAll closed
      (high :: rest)) _
    rw [readAll_front _ closed rest fun _ => closes]
    -- The right endpoint closes the range and cannot open another one.
    have front := ((readAtom_output reading low).emit (.hyphen, ClassMember.hyphenMark low high))
    have range := (readAtom_output _ high).trans ((shown.trans front).emit (high, high.mark))
    refine (ih _ whole dangles ?_ ?_).trans (range.foldl _)
    · intro more
      rw [(readAtom_state _ highWhole (mt highApplied more)).2.1]
      split <;> simp
    · intro next
      have more : rest ≠ [] := by
        rintro rfl
        simp at next
      rw [(readAtom_state _ highWhole (mt highApplied more)).1, hyphenRole]
      rfl
  | case2 low =>
    simp only [List.forall_mem_cons] at whole
    obtain ⟨opens, -, -⟩ := readAtom_state reading whole.1 (by simpa using dangles.1)
    rw [bne_iff_ne.mpr (role (by simp))] at opens
    rw [readAll_front reading closed _ (by simpa using settled)]
    show SameOutput ((reading.readAtom low).readHyphen closed none) _
    rw [readHyphen_last _ closed opens]
    exact (readAtom_output reading low).emit _
  | case3 atom rest noRange noLast ih =>
    rw [readAll_front reading closed rest (by simpa using settled)]
    refine (ih _ (fun other member => whole other (by simp [member])) dangles.2 ?_ ?_).trans
      ((readAtom_output reading atom).foldl _)
    · intro more
      rw [(readAtom_state reading (whole atom (by simp)) (mt dangles.1 more)).2.1]
      split <;> simp
    · -- A hyphen behind the atom would be the last one or form a range.
      intro next
      obtain ⟨more, rfl⟩ := List.head?_eq_some_iff.mp next
      cases more with
      | nil => exact (noLast rfl).elim
      | cons high others => exact (noRange high others rfl).elim
  | case4 => exact ⟨rfl, rfl, rfl⟩

/-- An item that applies to nothing only at the end goes in front of other atoms. -/
theorem DanglesLast.atoms_append {item : ClassItem} {rest : List ClassItem}
    (last : item = .escape [] → rest = []) (dangles : DanglesLast rest) :
    DanglesLast (item.atoms ++ rest) := by
  cases item with
  | run first others =>
    -- The characters of a run are no backslashes.
    induction others generalizing first with
    | nil => exact ⟨by simp, dangles⟩
    | cons next others ih => exact ⟨by simp, ih next (by simp)⟩
  | hyphen => exact ⟨by simp, dangles⟩
  | escape sequence => exact ⟨last, dangles⟩

/-- In the contents of a class only a last backslash applies to nothing. -/
theorem danglesLast_all (contents : Text) :
    DanglesLast ((ClassItem.all contents).flatMap ClassItem.atoms) := by
  fun_induction ClassItem.all contents with
  | case1 => trivial
  | case2 symbol tail item ih =>
    rw [List.flatMap_cons]
    refine ih.atoms_append fun dangling => ?_
    -- In front of a character the backslash would apply to that character.
    have nothing : tail = [] := by
      cases tail with
      | nil => rfl
      | cons next rest =>
        obtain ⟨more, cut⟩ := ClassItem.take_classEscapeLength next rest
        simp only [item] at dangling
        unfold ClassItem.first at dangling
        split at dangling <;> simp_all
    subst nothing
    simp [ClassItem.all]

/-- Faults are never taken back, so there are none in the end when nothing was an error. -/
theorem foldl_emit_diagnostics_eq_nil {reading : ClassReading}
    {items : List (ClassItem × ItemMark)} :
    (items.foldl emit reading).diagnostics = [] ↔
      reading.diagnostics = [] ∧ ∀ shown ∈ items, ∀ fault, shown.2 ≠ .flagged fault := by
  induction items generalizing reading with
  | nil => simp
  | cons shown rest ih =>
    -- Only an error adds a fault, and it adds one.
    obtain ⟨item, mark⟩ := shown
    rw [List.foldl_cons, ih]
    cases mark <;> simp [emit, plain, styled, flagged]

/-- The reading of a closed class behind its opening. -/
def opened (text : Text) (offset : Nat) : ClassReading :=
  -- A hyphen directly behind the opening has no left endpoint.
  ⟨Markup.nil.pushText (ClassParts.split text).opening, [],
    offset + byteSize (ClassParts.split text).opening, false, .initial, none⟩

/-- The reading of a class behind its opening, which is an error when the class has no end. -/
def entered (text : Text) (offset : Nat) : ClassReading :=
  let parts := ClassParts.split text
  { opened text offset with
    markup :=
      if parts.isClosed then Markup.nil.pushText parts.opening
      else Markup.nil.pushSpan .error parts.opening
    diagnostics := if parts.isClosed then [] else [⟨.unterminatedClass, offset, parts.opening⟩] }

end ClassReading

/-- The atoms of a class in order, each with the way in which it is shown. -/
def classMarks (text : Text) : List (ClassItem × ItemMark) :=
  (classMembers text).flatMap ClassMember.marked

/-- Every atom of a class is whole. -/
theorem classAtoms_isAtom (text : Text) : ∀ atom ∈ classAtoms text, atom.IsAtom := by
  -- The items are cut into atoms.
  intro atom member
  rw [← atoms_classItems] at member
  obtain ⟨item, _, inside⟩ := List.mem_flatMap.mp member
  exact ClassItem.isAtom_of_mem_atoms inside

/-- Every atom of a closed class is whole, and no backslash stands alone. -/
theorem classAtoms_whole {tail : Text}
    (closed : (ClassParts.split ('[' :: tail)).isClosed = true) :
    (∀ atom ∈ classAtoms ('[' :: tail), atom.IsAtom) ∧
      .escape [] ∉ classAtoms ('[' :: tail) := by
  refine ⟨classAtoms_isAtom _, ?_⟩
  rw [escape_mem_classAtoms]
  exact ClassItem.all_ne_dangling (ClassParts.contents_of_isClosed closed).2

/-- A class is shown as its opening, its marked atoms, and its bracket if it has one. -/
theorem annotateClass_shows (text : Text) (offset : Nat) :
    let parts := ClassParts.split text
    let shown := (atomMarks parts.isClosed (classAtoms text)).foldl ClassReading.emit
      (.entered text offset)
    annotateClass text offset = ⟨shown.markup.pushText parts.closing, shown.diagnostics⟩ := by
  -- The items are read like their atoms, and behind the opening no hyphen forms a range.
  have dangles : ClassReading.DanglesLast (classAtoms text) := by
    rw [← atoms_classItems]
    exact ClassReading.danglesLast_all _
  have same := ClassReading.readAll_atomMarks (.entered text offset)
    (ClassParts.split text).isClosed (classAtoms text) (classAtoms_isAtom text) dangles
    (by simp [ClassReading.entered, ClassReading.opened])
    (by simp [ClassReading.entered, ClassReading.opened])
  have items : (ClassReading.entered text offset).readAll (ClassParts.split text).isClosed
      (classAtoms text) = (ClassReading.entered text offset).readAll
        (ClassParts.split text).isClosed (ClassItem.all (ClassParts.split text).contents) := by
    rw [← atoms_classItems, ← ClassReading.readAll_atoms]
  rw [items] at same
  have start : ClassReading.entered text offset =
      if (ClassParts.split text).isClosed then
        ⟨Markup.nil.pushText (ClassParts.split text).opening, [],
          offset + byteSize (ClassParts.split text).opening, false, .initial, none⟩
      else
        ⟨Markup.nil.pushSpan .error (ClassParts.split text).opening,
          [⟨.unterminatedClass, offset, (ClassParts.split text).opening⟩],
          offset + byteSize (ClassParts.split text).opening, false, .initial, none⟩ := by
    simp only [ClassReading.entered]
    cases (ClassParts.split text).isClosed <;> rfl
  simp only [annotateClass, ← start]
  exact congr (congrArg _ (congrArg (Markup.pushText · _) same.markup)) same.diagnostics

/-- A closed class is shown as its opening, its marked atoms, and its bracket. -/
theorem annotateClass_closed {tail : Text} (offset : Nat)
    (closed : (ClassParts.split ('[' :: tail)).isClosed = true) :
    let shown := (classMarks ('[' :: tail)).foldl ClassReading.emit (.opened ('[' :: tail) offset)
    annotateClass ('[' :: tail) offset = ⟨shown.markup.pushText [']'], shown.diagnostics⟩ := by
  have shows := annotateClass_shows ('[' :: tail) offset
  have start : ClassReading.entered ('[' :: tail) offset = .opened ('[' :: tail) offset := by
    simp [ClassReading.entered, ClassReading.opened, closed]
  have marks : atomMarks true (classAtoms ('[' :: tail)) = classMarks ('[' :: tail) :=
    atomMarks_closed _
  -- In a closed class the atoms are shown as members, behind an opening that is no error.
  simpa only [closed, start, marks, ClassParts.closing_of_isClosed closed] using shows

/-- The marked atoms of a class are its atoms, none left out and none shown twice. -/
theorem classMarks_items (text : Text) : (classMarks text).map Prod.fst = classAtoms text := by
  -- Each member shows its atoms, with the hyphen between the endpoints of a range.
  unfold classMarks classMembers
  fun_induction ClassMember.all (classAtoms text) <;> simp_all [ClassMember.marked]

/-- An atom is shown by its kind alone, unless it is the hyphen of a range. -/
theorem mem_classMarks {text : Text} {item : ClassItem} {mark : ItemMark} :
    (item, mark) ∈ classMarks text → mark = item.mark ∨ item = .hyphen ∧
      ∃ low high, .range low high ∈ classMembers text ∧ mark = ClassMember.hyphenMark low high := by
  intro shown
  obtain ⟨member, inside, found⟩ := List.mem_flatMap.mp shown
  -- A member on its own shows its atom, and a range shows its endpoints in the same way.
  cases member with
  | single atom =>
    obtain ⟨rfl, rfl⟩ := Prod.mk.inj (List.mem_singleton.mp found)
    exact .inl rfl
  | range low high =>
    simp only [ClassMember.marked, List.mem_cons, Prod.mk.injEq, List.not_mem_nil, or_false]
      at found
    rcases found with ⟨rfl, rfl⟩ | ⟨rfl, rfl⟩ | ⟨rfl, rfl⟩
    · exact .inl rfl
    · exact .inr ⟨rfl, low, high, inside, rfl⟩
    · exact .inl rfl

/-- The hyphen of a range is shown by the fault of the range. -/
theorem hyphenMark_mem_classMarks {text : Text} {low high : ClassItem}
    (member : .range low high ∈ classMembers text) :
    (.hyphen, ClassMember.hyphenMark low high) ∈ classMarks text :=
  List.mem_flatMap.mpr ⟨_, member, by simp [ClassMember.marked]⟩

/-- Only a backslash on its own and an incomplete escape are errors by themselves. -/
theorem ClassItem.mark_eq_flagged {item : ClassItem} {fault : Fault}
    (flagged : item.mark = .flagged fault) :
    ∃ sequence, item = .escape sequence ∧ (sequence = [] ∨ isIncomplete sequence = true) := by
  cases item with
  | run first others => simp [mark] at flagged
  | hyphen => simp [mark] at flagged
  | escape sequence =>
    -- A shorthand class and a complete escape have styles of their own.
    refine ⟨sequence, rfl, ?_⟩
    by_cases nothing : sequence = []
    · exact .inl nothing
    · by_cases incomplete : isIncomplete sequence = true
      · exact .inr incomplete
      · simp only [mark, nothing, incomplete, if_false, Bool.false_eq_true] at flagged
        split at flagged <;> contradiction

/-- A closed class is shown without errors exactly when its members are good. -/
theorem annotateClass_closed_iff {tail : Text} (offset : Nat)
    (closed : (ClassParts.split ('[' :: tail)).isClosed = true) :
    (annotateClass ('[' :: tail) offset).diagnostics = [] ↔ GoodClass ('[' :: tail) := by
  rw [annotateClass_closed offset closed]
  simp only [ClassReading.foldl_emit_diagnostics_eq_nil]
  constructor
  · -- A clean reading flags no hyphen, so no range is faulty.
    rintro ⟨_, clean⟩
    have ranges (low high : ClassItem) (member : .range low high ∈ classMembers ('[' :: tail)) :
        ClassMember.rangeFault? low high = none := by
      have shown := clean _ (hyphenMark_mem_classMarks member)
      cases fault : ClassMember.rangeFault? low high with
      | none => rfl
      | some fault' => simp [ClassMember.hyphenMark, fault] at shown
    refine goodClass_iff.mpr ⟨closed, goodAtoms_iff.mpr ⟨?_, ranges⟩⟩
    intro sequence member
    -- An escape of the class is shown somewhere, and not as an incomplete one.
    rw [← classAtoms, ← classMarks_items] at member
    obtain ⟨⟨item, mark⟩, shown, rfl⟩ := List.mem_map.mp member
    have unflagged := clean _ shown
    rcases mem_classMarks shown with rfl | ⟨hyphen, _⟩
    · by_cases nothing : sequence = []
      · simp [nothing, isIncomplete]
      · by_cases incomplete : isIncomplete sequence = true
        · exact absurd (by simp [ClassItem.mark, nothing, incomplete])
            (unflagged .incompleteEscape)
        · simpa using incomplete
    · contradiction
  · -- Conversely, every flagged atom would contradict one of the conditions.
    intro good
    refine ⟨rfl, ?_⟩
    rintro ⟨item, mark⟩ shown fault flagged
    rcases mem_classMarks shown with same | ⟨_, low, high, member, same⟩
    · obtain ⟨sequence, rfl, wrong⟩ := ClassItem.mark_eq_flagged (same.symm.trans flagged)
      have found : .escape sequence ∈ classAtoms ('[' :: tail) :=
        classMarks_items _ ▸ List.mem_map.mpr ⟨_, shown, rfl⟩
      rcases wrong with rfl | incomplete
      · exact (classAtoms_whole closed).2 found
      · simp [good.complete sequence found] at incomplete
    · have styled : mark = .styled .range := by
        rw [same, ClassMember.hyphenMark, good.faultless member]
      simp [styled] at flagged

/-- A class that is not closed has a fault, whatever stands in it. -/
theorem annotateClass_unclosed {text : Text} (offset : Nat)
    (unclosed : (ClassParts.split text).isClosed = false) :
    (annotateClass text offset).diagnostics ≠ [] := by
  -- The fault of the opening is there before the first atom is read, and it stays.
  rw [annotateClass_shows, Ne, ClassReading.foldl_emit_diagnostics_eq_nil]
  simp [ClassReading.entered, unclosed]

/-- A class is shown without errors exactly when it is a good one. -/
theorem annotateClass_eq_nil_iff (tail : Text) (offset : Nat) :
    (annotateClass ('[' :: tail) offset).diagnostics = [] ↔ GoodClass ('[' :: tail) := by
  -- A class without its bracket is neither good nor shown without errors.
  cases closed : (ClassParts.split ('[' :: tail)).isClosed with
  | true => exact annotateClass_closed_iff offset closed
  | false =>
    have faulty := annotateClass_unclosed offset closed
    exact ⟨fun clean => absurd clean faulty,
      fun good => absurd good.closed (by simp [closed])⟩

end RegexLens
