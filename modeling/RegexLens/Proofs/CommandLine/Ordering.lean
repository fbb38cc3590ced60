import RegexLens.CommandLine.FileTree

/-! The order of names is that of their bytes, and names and paths are ordered totally. -/

namespace RegexLens

/-- What makes a test for order a total order; only its answers for different items matter. -/
structure Orders {Item : Type} (before : Item → Item → Bool) : Prop where
  /-- Of two different items one comes first. -/
  total : ∀ first second, first ≠ second → before first second = true ∨ before second first = true
  /-- No two different items come before each other. -/
  antisymm : ∀ first second, before first second = true → before second first = true →
    first = second
  /-- An item comes before what comes behind a later one. -/
  trans : ∀ first second third, before first second = true → before second third = true →
    before first third = true

section

variable {Item : Type} [DecidableEq Item] {before : Item → Item → Bool}

/-- Lists that start with the same item are in order when the rests are. -/
@[simp] theorem inOrder_cons_self (item : Item) (rest others : List Item) :
    inOrder before (item :: rest) (item :: others) = inOrder before rest others := by
  simp [inOrder]

/-- Lists that start with different items are in order when these are. -/
theorem inOrder_cons_of_ne {first second : Item} (different : first ≠ second)
    (rest others : List Item) :
    inOrder before (first :: rest) (second :: others) = before first second := by
  simp [inOrder, different]

/-- A list is in order with itself. -/
theorem inOrder_refl (items : List Item) : inOrder before items items = true := by
  -- Equal items leave it to the rests.
  induction items with
  | nil => rfl
  | cons item rest ih => simpa using ih

/-- Lists are ordered totally when their items are. -/
theorem Orders.inOrder (orders : Orders before) : Orders (inOrder before) where
  total := by
    -- The induction is on the first list, with any second one.
    intro items others different
    induction items generalizing others with
    | nil => exact .inl rfl
    | cons first rest ih =>
      cases others with
      | nil => exact .inr rfl
      | cons second more =>
        -- Equal first items leave it to the rests, and different ones decide.
        by_cases same : first = second
        · subst same
          simpa using ih more fun equal => different (by rw [equal])
        · rw [inOrder_cons_of_ne same, inOrder_cons_of_ne (Ne.symm same)]
          exact orders.total first second same
  antisymm := by
    intro items others below above
    induction items generalizing others with
    | nil =>
      cases others with
      | nil => rfl
      | cons second more => simp [RegexLens.inOrder] at above
    | cons first rest ih =>
      cases others with
      | nil => simp [RegexLens.inOrder] at below
      | cons second more =>
        -- Different first items would come before each other.
        by_cases same : first = second
        · subst same
          simp only [inOrder_cons_self] at below above
          rw [ih more below above]
        · rw [inOrder_cons_of_ne same] at below
          rw [inOrder_cons_of_ne (Ne.symm same)] at above
          exact absurd (orders.antisymm first second below above) same
  trans := by
    -- All three lists are taken apart together.
    intro items others last below above
    induction items generalizing others last with
    | nil => rfl
    | cons first rest ih =>
      cases others with
      | nil => simp [RegexLens.inOrder] at below
      | cons second more =>
        cases last with
        | nil => simp [RegexLens.inOrder] at above
        | cons third final =>
          -- The first place where two of the three lists differ decides.
          by_cases left : first = second
          · subst left
            by_cases right : first = third
            · subst right
              simp only [inOrder_cons_self] at below above ⊢
              exact ih more final below above
            · rwa [inOrder_cons_of_ne right] at above ⊢
          · rw [inOrder_cons_of_ne left] at below
            by_cases right : second = third
            · subst right
              rwa [inOrder_cons_of_ne left]
            · rw [inOrder_cons_of_ne right] at above
              -- If the outer items were the same, the middle one would be before and behind them.
              have outer : first ≠ third := by
                rintro rfl
                exact left (orders.antisymm first second below above)
              rw [inOrder_cons_of_ne outer]
              exact orders.trans first second third below above

end

/-- Names are ordered totally. -/
theorem orders_nameInOrder : Orders nameInOrder := by
  -- Code points are numbers, and different characters have different ones.
  have codes : Orders fun symbol other : Char => decide (symbol.toNat < other.toNat) := by
    constructor
    · intro first second different
      have apart : first.toNat ≠ second.toNat := fun same => different (Char.toNat_inj.mp same)
      simp only [decide_eq_true_eq]
      omega
    · intro first second below above
      simp only [decide_eq_true_eq] at below above
      omega
    · intro first second third below above
      simp only [decide_eq_true_eq] at below above ⊢
      omega
  exact codes.inOrder

/-- Paths are ordered totally. -/
theorem orders_namesInOrder : Orders namesInOrder :=
  orders_nameInOrder.inOrder

-- The slash of a joined path comes behind the hyphen, but the end of a name comes before both.
example : namesInOrder ["a".toList, "x".toList] ["a-b".toList, "x".toList] = true ∧
    nameInOrder "a/x".toList "a-b/x".toList = false := by decide

/-- The bytes of a name in its UTF-8 form. -/
def nameBytes (name : Text) : List UInt8 :=
  name.flatMap String.utf8EncodeChar

/-- Smaller first bytes decide, and behind equal ones what follows does. -/
theorem bytes_lt {first second : Nat} {rest others : List UInt8} (small : second < 256)
    (below : first < second ∨ (first = second ∧ rest < others)) :
    UInt8.ofNat first :: rest < UInt8.ofNat second :: others := by
  -- Bytes are compared as numbers, which fit since the larger one does.
  rw [List.cons_lt_cons_iff]
  rcases below with less | ⟨rfl, later⟩
  · exact .inl ((UInt8.ofNat_lt_iff_lt (Nat.lt_trans less small) small).mpr less)
  · exact .inr ⟨rfl, later⟩

section

variable {code other : Nat} {rest others : List UInt8}

/-- Among code points that differ in the last byte only, that byte decides. -/
theorem lastByte_lt (below : code < other) (same : code / 64 = other / 64) :
    UInt8.ofNat (code % 64 + 128) :: rest < UInt8.ofNat (other % 64 + 128) :: others :=
  bytes_lt (by omega) (.inl (by omega))

/-- Among code points that differ in the last two bytes only, the first difference decides. -/
theorem lastTwoBytes_lt (below : code < other) (same : code / 4096 = other / 4096) :
    UInt8.ofNat (code / 64 % 64 + 128) :: UInt8.ofNat (code % 64 + 128) :: rest <
      UInt8.ofNat (other / 64 % 64 + 128) :: UInt8.ofNat (other % 64 + 128) :: others := by
  -- The byte in front of the last one decides unless it is the same.
  rcases Nat.lt_or_ge (code / 64) (other / 64) with less | equal
  · exact bytes_lt (by omega) (.inl (by omega))
  · exact bytes_lt (by omega) (.inr ⟨by omega, lastByte_lt below (by omega)⟩)

/-- Among code points that differ in the last three bytes only, the first difference decides. -/
theorem lastThreeBytes_lt (below : code < other) (same : code / 262144 = other / 262144) :
    UInt8.ofNat (code / 4096 % 64 + 128) :: UInt8.ofNat (code / 64 % 64 + 128) ::
        UInt8.ofNat (code % 64 + 128) :: rest <
      UInt8.ofNat (other / 4096 % 64 + 128) :: UInt8.ofNat (other / 64 % 64 + 128) ::
        UInt8.ofNat (other % 64 + 128) :: others := by
  -- The first of the three bytes decides unless it is the same.
  rcases Nat.lt_or_ge (code / 4096) (other / 4096) with less | equal
  · exact bytes_lt (by omega) (.inl (by omega))
  · exact bytes_lt (by omega) (.inr ⟨by omega, lastTwoBytes_lt below (by omega)⟩)

end

/-- A smaller code point has smaller bytes, whatever follows. -/
theorem utf8EncodeChar_lt {first second : Char} (below : first.toNat < second.toNat)
    (rest others : List UInt8) :
    String.utf8EncodeChar first ++ rest < String.utf8EncodeChar second ++ others := by
  -- No code point needs more than four bytes.
  have bounded : second.val.toNat < 1114112 := by
    rcases second.valid with low | high
    · exact Nat.lt_trans low (by decide)
    · exact high.2
  change first.val.toNat < second.val.toNat at below
  simp only [String.utf8EncodeChar]
  generalize first.val.toNat = code at below ⊢
  generalize second.val.toNat = other at below bounded ⊢
  -- The cases are the numbers of bytes of the first character, and then those of the second one.
  -- The first byte grows with the number of bytes, and then with the leading digit.
  split
  · split
    · exact bytes_lt (by omega) (.inl below)
    · repeat' split
      all_goals exact bytes_lt (by omega) (.inl (by omega))
  · rw [if_neg (by omega : ¬ other ≤ 127)]
    split
    · split
      · rcases Nat.lt_or_ge (code / 64) (other / 64) with less | equal
        · exact bytes_lt (by omega) (.inl (by omega))
        · exact bytes_lt (by omega) (.inr ⟨by omega, lastByte_lt below (by omega)⟩)
      · split <;> exact bytes_lt (by omega) (.inl (by omega))
    · rw [if_neg (by omega : ¬ other ≤ 2047)]
      split
      · split
        · rcases Nat.lt_or_ge (code / 4096) (other / 4096) with less | equal
          · exact bytes_lt (by omega) (.inl (by omega))
          · exact bytes_lt (by omega) (.inr ⟨by omega, lastTwoBytes_lt below (by omega)⟩)
        · exact bytes_lt (by omega) (.inl (by omega))
      · rw [if_neg (by omega : ¬ other ≤ 65535)]
        rcases Nat.lt_or_ge (code / 262144) (other / 262144) with less | equal
        · exact bytes_lt (by omega) (.inl (by omega))
        · exact bytes_lt (by omega) (.inr ⟨by omega, lastThreeBytes_lt below (by omega)⟩)

/-- Different names that are in order have their bytes in order. -/
theorem nameBytes_lt {first second : Text} (below : nameInOrder first second = true)
    (different : first ≠ second) : nameBytes first < nameBytes second := by
  unfold nameInOrder at below
  unfold nameBytes
  -- The induction is on the characters, since equal ones have equal bytes.
  induction first generalizing second with
  | nil =>
    -- Two empty names are not different.
    cases second with
    | nil => contradiction
    | cons symbol others =>
      -- Every character has a byte.
      obtain ⟨byte, bytes, encoded⟩ :=
        List.exists_cons_of_ne_nil
          (String.utf8EncodeChar_ne_nil : String.utf8EncodeChar symbol ≠ [])
      simp [encoded]
  | cons symbol rest ih =>
    cases second with
    | nil => simp [inOrder] at below
    | cons other others =>
      rw [List.flatMap_cons, List.flatMap_cons]
      -- The first place where the names differ decides, and its bytes come behind equal ones.
      by_cases same : symbol = other
      · subst same
        rw [inOrder_cons_self] at below
        exact List.append_left_lt (ih below fun equal => different (by rw [equal]))
      · rw [inOrder_cons_of_ne same] at below
        exact utf8EncodeChar_lt (of_decide_eq_true below) _ _

end RegexLens
