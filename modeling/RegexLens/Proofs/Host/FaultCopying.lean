import RegexLens.Proofs.Host.TokenSpelling
import RegexLens.Proofs.Pattern.Progress

/-! A pattern is spelled for the host piece by piece, and what is faulty in it is only copied. -/

namespace RegexLens

/-- A piece of a pattern, with what the host is given for it. -/
structure HostPiece where
  /-- The piece as it stands in the pattern. -/
  source : Text
  /-- The piece as it is spelled for the host. -/
  form : Text
deriving DecidableEq, Repr

namespace HostPiece

/-- A piece that is copied as it is. -/
def copy (text : Text) : HostPiece :=
  ⟨text, text⟩

/-- Whether a piece stands at an offset, among pieces that follow one another from a start on. -/
def StandsAt (piece : HostPiece) (start : Nat) (pieces : List HostPiece) (offset : Nat) : Prop :=
  ∃ before after, pieces = before ++ piece :: after ∧
    offset = start + byteSize (before.flatMap source)

end HostPiece

/-- The pieces of class contents, one for each item. -/
def itemPieces (rangeable afterRange : Bool) : List ClassItem → List HostPiece
  | [] => []
  | item :: rest =>
    -- Only a hyphen between two endpoints stays bare.
    if item = .hyphen && rangeable && rest != [] then .copy ['-'] :: itemPieces false true rest
    else ⟨item.text, item.hostForm⟩ :: itemPieces (!afterRange || item.isLongRun) false rest

/-- The pieces of a token, given the number of groups opened before it. -/
def tokenPieces (groups : Nat) (token : Token) : List HostPiece :=
  match token.kind with
  | .characterClass =>
    let parts := ClassParts.split token.text
    let items := ClassItem.all parts.contents
    -- Only a class that is closed is translated, the opening and the bracket as they are.
    if parts.isClosed then
      .copy parts.opening :: (itemPieces false false items ++ [.copy parts.closing])
    else .copy parts.opening :: items.map fun item => .copy item.text
  | _ => [⟨token.text, tokenForm groups token⟩]

/-- The pieces of tokens, given the number of groups opened before them. -/
def tokensPieces (groups : Nat) : List Token → List HostPiece
  | [] => []
  | token :: rest => tokenPieces groups token ++ tokensPieces (groups + capturesIn [token]) rest

/-- The pieces of a pattern. -/
def hostPieces (pattern : Text) : List HostPiece :=
  tokensPieces 0 (scan pattern)

/-- The units of a token: the brackets and the items of a class, or else the token itself. -/
def Token.units (token : Token) : List Text :=
  match token.kind with
  | .characterClass =>
    let parts := ClassParts.split token.text
    parts.opening :: ((ClassItem.all parts.contents).map ClassItem.text ++
      if parts.isClosed then [parts.closing] else [])
  | _ => [token.text]

namespace HostPiece

variable {piece first : HostPiece} {pieces others : List HostPiece} {start offset : Nat}

/-- The first piece stands at the start. -/
theorem standsAt_head (piece : HostPiece) (start : Nat) (pieces : List HostPiece) :
    piece.StandsAt start (piece :: pieces) start :=
  ⟨[], pieces, rfl, rfl⟩

/-- A piece stays where it is when others follow. -/
theorem StandsAt.front (stands : piece.StandsAt start pieces offset) (others : List HostPiece) :
    piece.StandsAt start (pieces ++ others) offset := by
  obtain ⟨before, after, rfl, place⟩ := stands
  exact ⟨before, after ++ others, by simp, place⟩

/-- A piece behind others stands behind all of their sources. -/
theorem StandsAt.behind
    (stands : piece.StandsAt (start + byteSize (pieces.flatMap source)) others offset) :
    piece.StandsAt start (pieces ++ others) offset := by
  obtain ⟨before, after, rfl, rfl⟩ := stands
  refine ⟨pieces ++ before, after, by simp, ?_⟩
  rw [List.flatMap_append, byteSize_append, Nat.add_assoc]

/-- A piece behind one other stands behind its source. -/
theorem StandsAt.cons (stands : piece.StandsAt (start + byteSize first.source) pieces offset) :
    piece.StandsAt start (first :: pieces) offset := by
  rw [← List.singleton_append]
  apply StandsAt.behind
  simpa using stands

end HostPiece

/-- The pieces of class contents are its items. -/
theorem itemPieces_source (rangeable afterRange : Bool) (items : List ClassItem) :
    (itemPieces rangeable afterRange items).map HostPiece.source = items.map ClassItem.text := by
  -- The recursion is that of the spelling, in which a hyphen is told apart from all other items.
  fun_induction itemPieces rangeable afterRange items with
  | case1 => rfl
  | case2 rangeable afterRange item rest bare ih =>
    -- The piece of a bare hyphen keeps the hyphen as its source.
    simp only [Bool.and_eq_true, decide_eq_true_eq] at bare
    rw [List.map_cons, List.map_cons, ih, bare.1.1]
    rfl
  | case3 rangeable afterRange item rest other ih => rw [List.map_cons, List.map_cons, ih]

/-- The pieces of class contents are spelled as the contents are. -/
theorem itemPieces_form (rangeable afterRange : Bool) (items : List ClassItem) :
    (itemPieces rangeable afterRange items).flatMap HostPiece.form =
      classItemsForm rangeable afterRange items := by
  -- Both functions ask the same question of each item, so they are followed side by side.
  fun_induction itemPieces rangeable afterRange items with
  | case1 => rfl
  | case2 rangeable afterRange item rest bare ih =>
    rw [List.flatMap_cons, ih, classItemsForm, if_pos bare]
    rfl
  | case3 rangeable afterRange item rest other ih =>
    rw [List.flatMap_cons, ih, classItemsForm, if_neg other]

/-- The pieces of a token are its units. -/
theorem tokenPieces_source (groups : Nat) (token : Token) :
    (tokenPieces groups token).map HostPiece.source = token.units := by
  have copied (items : List ClassItem) :
      (items.map fun item => HostPiece.copy item.text).map HostPiece.source =
        items.map ClassItem.text := by
    rw [List.map_map]
    rfl
  -- The pieces are taken apart as the units are: by the kind, and then by the closing bracket.
  unfold tokenPieces Token.units
  split
  · dsimp only
    split
    · rw [List.map_cons, List.map_append, itemPieces_source]
      rfl
    · rw [List.map_cons, copied, List.append_nil]
      rfl
  · rfl

/-- The units of a token are the token, cut into pieces. -/
theorem Token.Shaped.units {token : Token} (shaped : token.Shaped) :
    token.units.flatten = token.text := by
  have form := shaped.form
  unfold Token.units
  -- Only a class has more than one unit.
  split
  · rename_i kind
    rw [kind] at form
    obtain ⟨_, whole⟩ := form.of_characterClass
    -- A class that is not closed has no closing bracket.
    have closing : (if (ClassParts.split token.text).isClosed then
        [(ClassParts.split token.text).closing] else []).flatten =
          (ClassParts.split token.text).closing := by
      unfold ClassParts.isClosed
      split <;> simp_all
    -- The opening, the items and the closing bracket are what the class was cut into.
    rw [List.flatten_cons, List.flatten_append, closing, ← List.flatMap_def, ClassItem.all_text,
      ← List.append_assoc]
    exact whole
  · simp

/-- The pieces of a token cover it. -/
theorem tokenPieces_text (groups : Nat) {token : Token} (shaped : token.Shaped) :
    (tokenPieces groups token).flatMap HostPiece.source = token.text := by
  rw [List.flatMap_def, tokenPieces_source, shaped.units]

/-- The pieces of a class that is not closed are copied as they are. -/
theorem tokenPieces_unclosed (groups : Nat) {token : Token} (kind : token.kind = .characterClass)
    (unclosed : (ClassParts.split token.text).isClosed = false) :
    ∀ piece ∈ tokenPieces groups token, piece.form = piece.source := by
  -- The opening and the items are the only pieces, and all of them are copies.
  intro piece member
  simp only [tokenPieces, kind, unclosed, Bool.false_eq_true, if_false, List.mem_cons,
    List.mem_map] at member
  rcases member with rfl | ⟨item, _, rfl⟩ <;> rfl

/-- A class that is not closed is copied. -/
theorem tokenForm_unclosed (groups : Nat) {token : Token} (kind : token.kind = .characterClass)
    (unclosed : (ClassParts.split token.text).isClosed = false) :
    tokenForm groups token = token.text := by
  rw [tokenForm, kind]
  simp [classForm, unclosed]

/-- The pieces of a token are spelled as the token is. -/
theorem tokenPieces_form (groups : Nat) {token : Token} (shaped : token.Shaped) :
    (tokenPieces groups token).flatMap HostPiece.form = tokenForm groups token := by
  by_cases kind : token.kind = .characterClass
  · cases closed : (ClassParts.split token.text).isClosed with
    | true =>
      -- A closed class is spelled item by item, between its opening and its bracket.
      rw [tokenForm, tokenPieces, kind]
      simp only [classForm, closed, if_true, List.flatMap_cons, List.flatMap_append,
        itemPieces_form, List.flatMap_nil, List.append_nil, HostPiece.copy, List.append_assoc]
    | false =>
      -- All pieces are copied, so what is spelled is the whole token.
      rw [tokenForm_unclosed groups kind closed, ← tokenPieces_text groups shaped,
        List.flatMap_def, List.flatMap_def,
        List.map_congr_left (tokenPieces_unclosed groups kind closed)]
  · -- Any other token is a single piece with its own spelling.
    rw [tokenPieces]
    split
    · contradiction
    · exact List.append_nil _

/-- Tokens that follow one another have their pieces one behind the other. -/
theorem tokensPieces_append (groups : Nat) (first second : List Token) :
    tokensPieces groups (first ++ second) =
      tokensPieces groups first ++ tokensPieces (groups + capturesIn first) second := by
  -- The pieces behind the first token count its groups, which is why the number is general.
  induction first generalizing groups with
  | nil => rfl
  | cons token rest ih =>
    have counted : capturesIn (token :: rest) = capturesIn [token] + capturesIn rest :=
      capturesIn_append [token] rest
    rw [List.cons_append, tokensPieces, tokensPieces, ih, List.append_assoc, counted,
      Nat.add_assoc]

/-- The pieces of tokens cover them. -/
theorem tokensPieces_text (groups : Nat) {tokens : List Token}
    (shaped : ∀ token ∈ tokens, token.Shaped) :
    (tokensPieces groups tokens).flatMap HostPiece.source = tokens.flatMap Token.text := by
  -- Each token has its pieces, whatever the number of groups in front of it is.
  induction tokens generalizing groups with
  | nil => rfl
  | cons token rest ih =>
    obtain ⟨front, others⟩ := List.forall_mem_cons.mp shaped
    rw [tokensPieces, List.flatMap_append, tokenPieces_text groups front, ih _ others,
      List.flatMap_cons]

/-- Every piece of a token holds a character. -/
theorem tokenPieces_ne_nil (groups : Nat) {token : Token} (shaped : token.Shaped) :
    ∀ piece ∈ tokenPieces groups token, piece.source ≠ [] := by
  -- It is enough to look at the units, since these are the sources of the pieces.
  have units : ∀ unit ∈ token.units, unit ≠ [] := by
    unfold Token.units
    split
    · rename_i kind
      have form := shaped.form
      rw [kind] at form
      obtain ⟨⟨tail, opens⟩, _⟩ := form.of_characterClass
      -- The opening holds the bracket at least.
      have opening : (ClassParts.split token.text).opening ≠ [] := by
        rw [opens]
        rcases ClassParts.opening_eq tail with ⟨opening, _⟩ | ⟨opening, _⟩ <;> simp [opening]
      intro unit member
      simp only [List.mem_cons, List.mem_append, List.mem_map] at member
      rcases member with rfl | ⟨item, _, rfl⟩ | closing
      · exact opening
      · exact item.text_ne_nil
      · split at closing
        · rename_i closed
          rw [List.mem_singleton.mp closing, ClassParts.closing_of_isClosed closed]
          exact List.cons_ne_nil _ _
        · contradiction
    · intro unit member
      rw [List.mem_singleton.mp member]
      exact shaped.nonempty
  intro piece member
  rw [← tokenPieces_source groups] at units
  exact units _ (List.mem_map_of_mem member)

/-- Every piece of tokens holds a character. -/
theorem tokensPieces_ne_nil (groups : Nat) {tokens : List Token}
    (shaped : ∀ token ∈ tokens, token.Shaped) :
    ∀ piece ∈ tokensPieces groups tokens, piece.source ≠ [] := by
  -- Each token answers for its own pieces, and no piece belongs to two tokens.
  induction tokens generalizing groups with
  | nil => exact fun _ member => absurd member List.not_mem_nil
  | cons token rest ih =>
    obtain ⟨front, others⟩ := List.forall_mem_cons.mp shaped
    intro piece member
    rcases List.mem_append.mp member with here | later
    · exact tokenPieces_ne_nil groups front piece here
    · exact ih _ others piece later

/-- The pieces of tokens are spelled as the tokens are. -/
theorem tokensPieces_form (groups : Nat) {tokens : List Token}
    (shaped : ∀ token ∈ tokens, token.Shaped) :
    (tokensPieces groups tokens).flatMap HostPiece.form = tokensForm groups tokens := by
  -- The groups of the first token are counted by the spelling and by the pieces alike.
  induction tokens generalizing groups with
  | nil => rfl
  | cons token rest ih =>
    obtain ⟨front, others⟩ := List.forall_mem_cons.mp shaped
    rw [← List.singleton_append, tokensForm_append, tokensForm_singleton, List.singleton_append,
      tokensPieces, List.flatMap_append, tokenPieces_form groups front, ih _ others]

namespace ClassReading

/-- An item that is read moves the reading behind it, and it is copied if it is found faulty. -/
structure Copies (before after : ClassReading) (text form : Text) : Prop where
  offset : after.offset = before.offset + byteSize text
  faults : ∀ fault ∈ after.diagnostics,
    fault ∈ before.diagnostics ∨ fault.offset = before.offset ∧ fault.text = text ∧ form = text

variable {reading before after : ClassReading} {text form : Text} {fault : Diagnostic}

/-- What the next hyphen is taken for does not matter for the faults so far. -/
theorem Copies.remember (copies : Copies before after text form) (role : ItemRole)
    (code? : Option Nat) : Copies before (after.remember role code?) text form :=
  ⟨copies.offset, copies.faults⟩

/-- An item in plain text has no fault. -/
theorem copies_plain (reading : ClassReading) (item : ClassItem) (form : Text) :
    Copies reading (reading.plain item) item.text form :=
  ⟨rfl, fun _ => .inl⟩

/-- An item in a style has no fault. -/
theorem copies_styled (reading : ClassReading) (style : Style) (item : ClassItem) (form : Text) :
    Copies reading (reading.styled style item) item.text form :=
  ⟨rfl, fun _ => .inl⟩

/-- A faulty item that is copied has its fault where it stands. -/
theorem copies_flagged (reading : ClassReading) (found : Fault) (item : ClassItem) :
    Copies reading (reading.flagged found item) item.text item.text where
  offset := rfl
  faults := by
    intro fault member
    -- The only new fault is the one that is pushed, with the text and the place of the item.
    rcases List.mem_append.mp member with known | new
    · exact .inl known
    · rw [List.mem_singleton.mp new]
      exact .inr ⟨rfl, rfl, rfl⟩

/-- A hyphen is faulty only between two endpoints, where it has to be copied. -/
theorem copies_readHyphen (reading : ClassReading) (closed : Bool) (next? : Option ClassItem)
    (form : Text) (bare : reading.rangeable = true → next? ≠ none → form = ['-']) :
    Copies reading (reading.readHyphen closed next?) ['-'] form := by
  -- The four outcomes of reading a hyphen, of which one can push a fault.
  unfold readHyphen
  split
  · exact (copies_plain reading .hyphen form).remember _ _
  · rename_i opens
    split
    · rename_i next
      have opens : reading.rangeable = true := by simpa using opens
      have copied : form = ['-'] := bare opens (by simp)
      subst copied
      -- Whether the range is faulty or not, the hyphen is shown where it stands.
      cases reading.rangeFault? next with
      | none =>
        have shown := copies_styled reading .range .hyphen ['-']
        exact ⟨shown.offset, shown.faults⟩
      | some found =>
        have shown := copies_flagged reading found .hyphen
        exact ⟨shown.offset, shown.faults⟩
    · split
      · exact copies_plain reading .hyphen form
      · exact copies_styled reading .range .hyphen form

/-- An escape is faulty only without what it needs, and then it has to be copied. -/
theorem copies_readEscape (reading : ClassReading) (sequence form : Text)
    (faulty : sequence = [] ∨ isIncomplete sequence = true → form = '\\' :: sequence) :
    Copies reading (reading.readEscape sequence) ('\\' :: sequence) form := by
  unfold readEscape
  dsimp only
  -- A fault comes from a missing letter or from missing digits, the other outcomes are styled.
  split
  · rename_i dangling
    rw [faulty (.inl dangling)]
    exact copies_flagged reading .danglingBackslash (.escape sequence)
  · split
    · rename_i incomplete
      rw [faulty (.inr incomplete)]
      exact (copies_flagged reading .incompleteEscape (.escape sequence)).remember _ _
    · split
      · exact (copies_styled reading .metaclass (.escape sequence) form).remember _ _
      · exact (copies_styled reading .special (.escape sequence) form).remember _ _

/-- A run has no fault. -/
theorem copies_readRun (reading : ClassReading) (first : Char) (others form : Text) :
    Copies reading (reading.readRun first others) (first :: others) form :=
  ⟨rfl, fun _ => .inl⟩

/-- A fault found behind an item stands behind it, and the fault of the item on its piece. -/
theorem Copies.stands (copies : Copies before after text form) {rest : List HostPiece}
    (found : fault ∈ after.diagnostics ∨
      (HostPiece.copy fault.text).StandsAt after.offset rest fault.offset) :
    fault ∈ before.diagnostics ∨
      (HostPiece.copy fault.text).StandsAt before.offset (⟨text, form⟩ :: rest) fault.offset := by
  -- Either the item brought the fault in, or the fault lies behind it.
  rcases found with here | behind
  · rcases copies.faults fault here with known | ⟨place, same, copied⟩
    · exact .inl known
    · right
      rw [place, same, copied]
      exact HostPiece.standsAt_head _ _ _
  · -- The places behind the item are counted from its end.
    rw [copies.offset] at behind
    exact .inr (HostPiece.StandsAt.cons behind)

/-- Whatever is faulty in class contents is an item of them. -/
theorem readAll_copies (closed : Bool) (items : List ClassItem) (reading : ClassReading)
    (found : fault ∈ (reading.readAll closed items).diagnostics) :
    fault ∈ reading.diagnostics ∨ (HostPiece.copy fault.text).StandsAt reading.offset
      (items.map fun item => .copy item.text) fault.offset := by
  -- The items are read one by one, and in a class that is not closed all of them are copied.
  induction items generalizing reading with
  | nil => exact .inl found
  | cons item rest ih =>
    cases item with
    | hyphen => exact (reading.copies_readHyphen closed _ _ fun _ _ => rfl).stands (ih _ found)
    | escape sequence =>
      exact (reading.copies_readEscape sequence _ fun _ => rfl).stands (ih _ found)
    | run first others => exact (reading.copies_readRun first others _).stands (ih _ found)

/-- A reading goes on behind an item that forms no range as the spelling does. -/
structure Follows (before after : ClassReading) (item : ClassItem) : Prop where
  rangeable : after.rangeable = (!(before.role == .rangeHyphen) || item.isLongRun)
  role : (after.role == .rangeHyphen) = false

/-- Behind an escape that applies to something the reading goes on as the spelling does. -/
theorem follows_readEscape (reading : ClassReading) {sequence : Text} (applied : sequence ≠ []) :
    reading.Follows (reading.readEscape sequence) (.escape sequence) := by
  -- No escape counts as a long run, so only its role decides whether a range can open behind it.
  have opens : (!(reading.role == .rangeHyphen) || (ClassItem.escape sequence).isLongRun) =
      (reading.role != .rangeHyphen) := Bool.or_false _
  unfold readEscape
  rw [if_neg applied]
  split
  · exact ⟨opens.symm, rfl⟩
  · split <;> exact ⟨opens.symm, rfl⟩

/-- Behind a run the reading goes on as the spelling does. -/
theorem follows_readRun (reading : ClassReading) (first : Char) (others : Text) :
    reading.Follows (reading.readRun first others) (.run first others) :=
  ⟨Bool.or_comm _ _, rfl⟩

/-- A fault found in front of or behind an item that forms no range stands on its own piece. -/
theorem Follows.stands {item : ClassItem} {rest : List ClassItem}
    (follows : before.Follows after item)
    (ordinary : (item = .hyphen && before.rangeable && rest != []) = false)
    (copies : Copies before after item.text item.hostForm)
    (found : fault ∈ after.diagnostics ∨ (HostPiece.copy fault.text).StandsAt after.offset
      (itemPieces after.rangeable (after.role == .rangeHyphen) rest) fault.offset) :
    fault ∈ before.diagnostics ∨ (HostPiece.copy fault.text).StandsAt before.offset
      (itemPieces before.rangeable (before.role == .rangeHyphen) (item :: rest)) fault.offset := by
  -- The spelling goes on in the state in which the reading is.
  rw [follows.rangeable, follows.role] at found
  rw [itemPieces, ordinary, if_neg Bool.false_ne_true]
  exact copies.stands found

/-- An escape that lacks what it needs is copied inside a class, too. -/
theorem hostForm_incomplete {sequence : Text}
    (faulty : sequence = [] ∨ isIncomplete sequence = true) :
    (ClassItem.escape sequence).hostForm = '\\' :: sequence := by
  -- Without what it needs an escape has no code, so that nothing else can be spelled.
  have absent : sequenceCode? sequence = none :=
    sequenceCode?_eq_none (faulty.imp_right .inr)
  have character : isMetaclass sequence = false := by
    rcases faulty with rfl | incomplete
    · rfl
    · exact ClassItem.isMetaclass_of_isIncomplete incomplete
  simp [ClassItem.hostForm, character, characterForm, absent]

/-- Whatever is faulty in the contents of a closed class has a piece that is copied. -/
theorem readAll_closed (items : List ClassItem) (whole : .escape [] ∉ items)
    (reading : ClassReading) (found : fault ∈ (reading.readAll true items).diagnostics) :
    fault ∈ reading.diagnostics ∨ (HostPiece.copy fault.text).StandsAt reading.offset
      (itemPieces reading.rangeable (reading.role == .rangeHyphen) items) fault.offset := by
  -- The reading knows which hyphens form ranges, and the spelling follows it item by item.
  induction items generalizing reading with
  | nil => exact .inl found
  | cons item rest ih =>
    simp only [List.mem_cons, not_or] at whole
    obtain ⟨applied, others⟩ := whole
    have later := ih others
    cases item with
    | run first more =>
      -- A run is never at fault, and neither is its piece.
      exact (reading.follows_readRun first more).stands rfl (reading.copies_readRun first more _)
        (later _ found)
    | escape sequence =>
      have applied : sequence ≠ [] := fun empty => applied (by rw [empty])
      -- The escape applies to something, since a closed class has no backslash left alone.
      exact (reading.follows_readEscape applied).stands rfl
        (reading.copies_readEscape sequence _ hostForm_incomplete) (later _ found)
    | hyphen =>
      cases opens : reading.rangeable with
      | false =>
        -- A hyphen that can form no range is an ordinary item.
        have read : reading.readHyphen true rest.head? =
            (reading.plain .hyphen).remember .ordinary (some '-'.toNat) := by
          simp [readHyphen, opens]
        rw [readAll, read] at found
        have follows : reading.Follows ((reading.plain .hyphen).remember .ordinary
            (some '-'.toNat)) .hyphen := ⟨(Bool.or_false _).symm, rfl⟩
        rw [← opens]
        exact follows.stands (by simp [opens]) ((reading.copies_plain .hyphen _).remember _ _)
          (later _ found)
      | true =>
        cases rest with
        | nil =>
          -- Nothing behind it can be the other endpoint.
          have read : (reading.readAll true [.hyphen]).diagnostics = reading.diagnostics := by
            simp [readAll, readHyphen, opens, plain]
          rw [read] at found
          exact .inl found
        | cons next more =>
          -- The hyphen is between two items, where it is spelled as it is.
          have behind := later _ found
          have state : (reading.readHyphen true (some next)).rangeable = false ∧
              ((reading.readHyphen true (some next)).role == .rangeHyphen) = true := by
            simp [readHyphen, opens]
          rw [List.head?_cons, state.1, state.2] at behind
          exact (reading.copies_readHyphen true (some next) _ fun _ _ => rfl).stands behind

end ClassReading

/-- Whatever is faulty in a class has a piece that is copied. -/
theorem annotateClass_copies (groups : Nat) {token : Token} (shaped : token.Shaped)
    (kind : token.kind = .characterClass) {fault : Diagnostic}
    (found : fault ∈ (annotateClass token.text token.start).diagnostics) :
    (HostPiece.copy fault.text).StandsAt token.start (tokenPieces groups token) fault.offset := by
  have form := shaped.form
  rw [kind] at form
  obtain ⟨⟨tail, opens⟩, _⟩ := form.of_characterClass
  -- Whether the class is closed decides how its items are spelled, so this comes first.
  simp only [annotateClass] at found
  cases closed : (ClassParts.split token.text).isClosed with
  | true =>
    simp only [closed, if_true] at found
    -- No backslash is left alone in front of the closing bracket.
    have whole : .escape [] ∉ ClassItem.all (ClassParts.split token.text).contents := by
      rw [opens] at closed ⊢
      exact ClassItem.all_ne_dangling (ClassParts.contents_of_isClosed closed).2
    rcases ClassReading.readAll_closed _ whole _ found with known | inside
    · contradiction
    · simp only [tokenPieces, kind, closed, if_true]
      exact (inside.front _).cons
  | false =>
    -- In a class that is not closed the missing bracket is a fault of its own, at the opening.
    simp only [closed, Bool.false_eq_true, if_false] at found
    simp only [tokenPieces, kind, closed, Bool.false_eq_true, if_false]
    rcases ClassReading.readAll_copies _ _ _ found with known | inside
    · rw [List.mem_singleton.mp known]
      exact HostPiece.standsAt_head _ _ _
    · exact inside.cons

namespace Classifier

variable {state : Classifier} {token : Token} {pieces : List HostPiece} {fault : Diagnostic}

/-- A flagged token that is copied has its fault where it stands. -/
theorem flagged_copies (groups : Nat) (found : Fault) (single : token.kind ≠ .characterClass)
    (copied : tokenForm groups token = token.text)
    (member : fault ∈ (state.flagged found token).diagnostics) :
    fault ∈ state.diagnostics ∨
      (HostPiece.copy fault.text).StandsAt token.start (tokenPieces groups token) fault.offset := by
  -- The token is no class, and so it is one piece.
  have piece : tokenPieces groups token = [.copy token.text] := by
    rw [tokenPieces]
    split
    · contradiction
    · rw [copied]
      rfl
  -- The fault was there before, or it is the one of this token.
  rcases List.mem_append.mp member with known | new
  · exact .inl known
  · rw [List.mem_singleton.mp new, piece]
    exact .inr (HostPiece.standsAt_head _ _ _)

/-- An escape that lacks what it needs is copied outside classes. -/
theorem tokenForm_incomplete (groups : Nat) {sequence : Text} (kind : token.kind = .escape)
    (text : token.text = '\\' :: sequence)
    (faulty : sequence = [] ∨ isIncomplete sequence = true) :
    tokenForm groups token = token.text := by
  -- Only four sequences are without what they need.
  have known : sequence = [] ∨ sequence = ['c'] ∨ sequence = ['u'] ∨ sequence = ['x'] := by
    simpa [isIncomplete] using faulty
  rw [tokenForm, kind, text]
  rcases known with rfl | rfl | rfl | rfl <;> rfl

/-- Whatever is found when a token is read has a piece of the token that is copied. -/
theorem read_copies (groups : Nat) (shaped : token.Shaped)
    (found : fault ∈ (state.read token).diagnostics) :
    fault ∈ state.diagnostics ∨
      (HostPiece.copy fault.text).StandsAt token.start (tokenPieces groups token) fault.offset := by
  -- A token that is no class and no escape is copied when it is no text to be quoted.
  have form := shaped.form
  cases kind : token.kind with
  | characterClass =>
    rw [read, kind] at found
    rcases List.mem_append.mp found with known | new
    · exact .inl known
    · exact .inr (annotateClass_copies groups shaped kind new)
  | groupOpen =>
    have copied : tokenForm groups token = token.text := by rw [tokenForm, kind]
    -- An opening is at fault when the mark of a type has no letter behind it.
    simp only [read, kind, readGroupOpen] at found
    split at found
    · exact flagged_copies groups _ (by simp [kind]) copied found
    · exact .inl found
  | groupClose =>
    have copied : tokenForm groups token = token.text := by rw [tokenForm, kind]
    -- A bracket is at fault when it closes nothing.
    simp only [read, kind, readGroupClose] at found
    split at found
    · exact flagged_copies groups _ (by simp [kind]) copied found
    · exact .inl found
  | escape =>
    rw [kind] at form
    obtain ⟨sequence, text⟩ := form.of_escape
    have copied := @tokenForm_incomplete token groups sequence kind text
    -- The four outcomes of reading an escape, two of which are faults.
    simp only [read, kind, readEscape, text, List.drop_succ_cons, List.drop_zero] at found
    split at found
    · exact flagged_copies groups _ (by simp [kind]) (copied (.inl rfl)) found
    · split at found
      · exact .inl found
      · split at found
        · rename_i incomplete
          exact flagged_copies groups _ (by simp [kind]) (copied (.inr incomplete)) found
        · split at found <;> exact .inl found
  | quantifier =>
    have copied : tokenForm groups token = token.text := by rw [tokenForm, kind]
    -- A quantifier is at fault when its bounds are, or when it has nothing to repeat.
    simp only [read, kind, readQuantifier] at found
    split at found
    · exact flagged_copies groups _ (by simp [kind]) copied found
    · split at found
      · exact flagged_copies groups _ (by simp [kind]) copied found
      · exact .inl found
  | anchor =>
    rw [read, kind] at found
    exact .inl found
  | dot =>
    rw [read, kind] at found
    exact .inl found
  | alternator =>
    have copied : tokenForm groups token = token.text := by rw [tokenForm, kind]
    -- A bar is at fault when it leaves an empty alternative on the outermost level.
    simp only [read, kind, readAlternator] at found
    split at found
    · exact flagged_copies groups _ (by simp [kind]) copied found
    · split at found <;> exact .inl found
  | literal =>
    rw [read, kind] at found
    exact .inl found

/-- Everything that is faulty so far, or will be at the end, has a piece that is copied. -/
structure Copied (state : Classifier) (pieces : List HostPiece) : Prop where
  faults : ∀ fault ∈ state.diagnostics,
    (HostPiece.copy fault.text).StandsAt 0 pieces fault.offset
  groups : ∀ group ∈ state.openGroups,
    (HostPiece.copy group.opening).StandsAt 0 pieces group.offset

/-- A token keeps everything that is faulty copied. -/
theorem Copied.read (copied : state.Copied pieces) (groups : Nat) (shaped : token.Shaped)
    (start : token.start = byteSize (pieces.flatMap HostPiece.source)) :
    (state.read token).Copied (pieces ++ tokenPieces groups token) where
  faults := by
    intro fault found
    -- The faults that were known keep their pieces, and new ones stand on the pieces of the token.
    rcases read_copies groups shaped found with known | new
    · exact (copied.faults fault known).front _
    · apply HostPiece.StandsAt.behind
      rwa [Nat.zero_add, ← start]
  groups := by
    intro group member
    -- A group is opened by this token, closed by it, or left as it is.
    rw [(state.read_nesting token).1] at member
    split at member
    · rename_i opens
      rcases List.mem_cons.mp member with rfl | known
      · -- An opening that turns out to be unterminated is copied like every other one.
        simp only [Token.opens, Bool.and_eq_true, decide_eq_true_eq] at opens
        apply HostPiece.StandsAt.behind
        rw [Nat.zero_add, ← start]
        simp only [tokenPieces, opens.1, tokenForm]
        exact HostPiece.standsAt_head _ _ _
      · exact (copied.groups group known).front _
    · split at member
      · exact (copied.groups group (List.mem_of_mem_tail member)).front _
      · exact (copied.groups group member).front _

/-- Tokens keep everything that is faulty copied. -/
theorem Copied.run (copied : state.Copied pieces) (groups : Nat) {tokens : List Token}
    (shaped : ∀ token ∈ tokens, token.Shaped)
    (contiguous : Contiguous (byteSize (pieces.flatMap HostPiece.source)) tokens) :
    (tokens.foldl Classifier.read state).Copied (pieces ++ tokensPieces groups tokens) := by
  -- The pieces grow with the tokens, and the groups are counted on the way.
  induction tokens generalizing state pieces groups with
  | nil => rwa [tokensPieces, List.append_nil]
  | cons token rest ih =>
    obtain ⟨front, others⟩ := List.forall_mem_cons.mp shaped
    obtain ⟨start, behind⟩ := contiguous
    rw [tokensPieces, ← List.append_assoc]
    refine ih (copied.read groups front start) _ others ?_
    -- The next token starts where the pieces so far end.
    rwa [List.flatMap_append, byteSize_append, tokenPieces_text groups front]

end Classifier

/-- Whatever is faulty in a pattern has a piece that is copied. -/
theorem classify_copies {pattern : Text} {fault : Diagnostic}
    (found : fault ∈ (classify pattern).diagnostics) :
    (HostPiece.copy fault.text).StandsAt 0 (hostPieces pattern) fault.offset := by
  have initial : Classifier.initial.Copied [] := ⟨by simp [Classifier.initial],
    by simp [Classifier.initial]⟩
  -- Nothing is faulty before the first token, and every token keeps its faults copied.
  have copied := initial.run 0 (scan_shaped pattern) (scan_contiguous pattern)
  rcases Classifier.mem_finish_diagnostics.mp found with known | ⟨group, left, rfl⟩
  · exact copied.faults fault known
  · exact copied.groups group left

/--
A pattern is spelled for the host piece by piece, and every faulty piece is copied as it is.

The pieces follow one another like the tokens, with one for each unit of a class.
A class that is not closed is copied as a whole.
-/
theorem hostForm_copies_faults (pattern : Text) :
    (hostPieces pattern).flatMap HostPiece.source = pattern ∧
      (∀ piece ∈ hostPieces pattern, piece.source ≠ []) ∧
      (hostPieces pattern).flatMap HostPiece.form = hostForm pattern ∧
      (∀ fault ∈ (classify pattern).diagnostics,
        (HostPiece.copy fault.text).StandsAt 0 (hostPieces pattern) fault.offset) ∧
      ∀ before token after, scan pattern = before ++ token :: after →
        hostPieces pattern = tokensPieces 0 before ++ tokenPieces (capturesIn before) token ++
          tokensPieces (capturesIn (before ++ [token])) after ∧
        (tokenPieces (capturesIn before) token).map HostPiece.source = token.units ∧
        token.units.flatten = token.text ∧
        (tokenPieces (capturesIn before) token).flatMap HostPiece.form =
          tokenForm (capturesIn before) token ∧
        (token.kind = .characterClass → (ClassParts.split token.text).isClosed = false →
          tokenForm (capturesIn before) token = token.text ∧
          ∀ piece ∈ tokenPieces (capturesIn before) token, piece.form = piece.source) := by
  have shaped := scan_shaped pattern
  -- The parts are about all tokens at once, except for the last one.
  refine ⟨?_, tokensPieces_ne_nil 0 shaped, tokensPieces_form 0 shaped,
    fun _ => classify_copies, ?_⟩
  · exact (tokensPieces_text 0 shaped).trans (scan_text pattern)
  · -- The pieces of one token stand between those of the tokens around it.
    intro before token after cut
    have whole := shaped_of_cut cut
    refine ⟨?_, tokenPieces_source _ token, whole.units, tokenPieces_form _ whole, ?_⟩
    · rw [hostPieces, cut, tokensPieces_append, capturesIn_append, Nat.zero_add, tokensPieces,
        List.append_assoc]
    · -- A class that is not closed is copied as a whole.
      intro kind unclosed
      exact ⟨tokenForm_unclosed _ kind unclosed, tokenPieces_unclosed _ kind unclosed⟩

end RegexLens
