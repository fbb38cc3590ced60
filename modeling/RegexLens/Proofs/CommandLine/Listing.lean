import Mathlib.Data.List.Nodup
import RegexLens.Proofs.CommandLine.Ordering

/-! Folders that list their entries in different orders, and the files below them in one order. -/

namespace RegexLens

namespace FileTree

/-- A folder that lists an entry in front of others. -/
def cons (name : Text) (place : Place) (rest : FileTree) : FileTree :=
  match place with
  | .file content => file name content rest
  | .folder entries => folder name entries rest

/-- What holds of no entries, and of entries with one more in front, holds of all folders. -/
@[elab_as_elim] theorem listing_induction {motive : FileTree → Prop} (nil : motive nil)
    (cons : ∀ name place rest, (∀ entries, place = .folder entries → motive entries) →
      motive rest → motive (cons name place rest)) : ∀ tree, motive tree := by
  intro tree
  -- A file and a folder in front are both an entry in front, with or without a folder in it.
  induction tree with
  | nil => exact nil
  | file name content rest ih => exact cons name (.file content) rest (by simp) ih
  | folder name entries rest inner ih =>
    exact cons name (.folder entries) rest (by rintro other ⟨⟩; exact inner) ih

/-- The names of the entries of a folder, in the order of listing. -/
def names : FileTree → List Text
  | nil => []
  | file name _ rest | folder name _ rest => name :: rest.names

/-- Every entry has a name without a slash, and no two entries of a folder have the same name. -/
def WellNamed : FileTree → Prop
  | nil => True
  | file name _ rest => '/' ∉ name ∧ name ∉ rest.names ∧ rest.WellNamed
  | folder name entries rest =>
    '/' ∉ name ∧ name ∉ rest.names ∧ entries.WellNamed ∧ rest.WellNamed

/-- Each name is in a relation to all that are listed behind it, in every folder. -/
def Ascending (below : Text → Text → Prop) : FileTree → Prop
  | nil => True
  | file name _ rest => (∀ other ∈ rest.names, below name other) ∧ rest.Ascending below
  | folder name entries rest =>
    (∀ other ∈ rest.names, below name other) ∧ entries.Ascending below ∧ rest.Ascending below

/-- The same folder with its entries listed in another order, and those of its folders too. -/
inductive Relisted : FileTree → FileTree → Prop
  /-- Without entries there is only one order. -/
  | nil : Relisted nil nil
  /-- The entries behind a file can be listed in another order. -/
  | file (name : Text) (content : Content) {rest others : FileTree}
      (behind : Relisted rest others) :
      Relisted (file name content rest) (file name content others)
  /-- So can those behind a folder, and those in it. -/
  | folder (name : Text) {entries inner rest others : FileTree} (inside : Relisted entries inner)
      (behind : Relisted rest others) :
      Relisted (folder name entries rest) (folder name inner others)
  /-- Two entries that follow each other can change places. -/
  | swap (name other : Text) (first second : Place) (rest : FileTree) :
      Relisted (cons name first (cons other second rest))
        (cons other second (cons name first rest))
  /-- Several changes can follow each other. -/
  | trans {tree middle last : FileTree} (one : Relisted tree middle) (more : Relisted middle last) :
      Relisted tree last

variable {tree other rest : FileTree} {name : Text} {place : Place} {below : Text → Text → Prop}

@[simp] theorem names_cons : (cons name place rest).names = name :: rest.names := by
  cases place <;> rfl

/-- The entry in front has its own conditions. -/
theorem wellNamed_cons : (cons name place rest).WellNamed ↔ '/' ∉ name ∧ name ∉ rest.names ∧
    (∀ entries, place = .folder entries → entries.WellNamed) ∧ rest.WellNamed := by
  cases place <;> simp [cons, WellNamed]

/-- The entry in front has its own conditions. -/
theorem ascending_cons : (cons name place rest).Ascending below ↔
    (∀ other ∈ rest.names, below name other) ∧
      (∀ entries, place = .folder entries → entries.Ascending below) ∧ rest.Ascending below := by
  cases place <;> simp [cons, Ascending]

/-- The entry in front is found by its name, and the others behind it. -/
theorem entry?_cons (wanted : Text) :
    FileTree.entry? (cons name place rest) wanted =
      if name = wanted then some place else rest.entry? wanted := by
  cases place <;> rfl

/-- A folder is a listing of itself. -/
theorem Relisted.refl (tree : FileTree) : Relisted tree tree := by
  -- Nothing changes places, neither in front nor inside.
  induction tree with
  | nil => exact .nil
  | file name content rest ih => exact .file name content ih
  | folder name entries rest inner ih => exact .folder name inner ih

/-- The entries behind one can be listed in another order. -/
theorem Relisted.cons {others : FileTree} (name : Text) (place : Place)
    (behind : Relisted rest others) : Relisted (cons name place rest) (cons name place others) := by
  -- What is inside of a folder stays in its order.
  cases place with
  | file content => exact .file name content behind
  | folder entries => exact .folder name (.refl entries) behind

/-- Another order of listing has the same names. -/
theorem Relisted.names (relisted : Relisted tree other) : tree.names.Perm other.names := by
  -- Only a swap moves a name, and it moves one name behind the next.
  induction relisted with
  | nil => exact .nil
  | file name content _ ih => exact ih.cons name
  | folder name _ _ _ ih => exact ih.cons name
  | swap name other first second rest =>
    rw [names_cons, names_cons, names_cons, names_cons]
    exact .swap other name rest.names
  | trans _ _ first second => exact first.trans second

/-- Names stay distinct and without slashes in another order. -/
theorem Relisted.wellNamed (relisted : Relisted tree other) (named : tree.WellNamed) :
    other.WellNamed := by
  -- The names are those of before, so that each of them stays distinct from the others.
  induction relisted with
  | nil => exact named
  | file name content behind ih =>
    exact ⟨named.1, fun member => named.2.1 (behind.names.mem_iff.mpr member), ih named.2.2⟩
  | folder name inside behind ihInside ih =>
    exact ⟨named.1, fun member => named.2.1 (behind.names.mem_iff.mpr member),
      ihInside named.2.2.1, ih named.2.2.2⟩
  | swap name other first second rest =>
    simp only [wellNamed_cons, names_cons, List.mem_cons, not_or] at named ⊢
    -- What was distinct in one order is distinct in the other.
    obtain ⟨plain, ⟨different, apart⟩, inner, otherPlain, otherApart, otherInner, rest⟩ := named
    exact ⟨otherPlain, ⟨Ne.symm different, otherApart⟩, otherInner, plain, apart, inner, rest⟩
  | trans _ _ first second => exact second (first named)

/-- What holds between the names of each folder can be weakened. -/
theorem Ascending.imp {wider : Text → Text → Prop}
    (weaker : ∀ first second, below first second → wider first second)
    (ascending : tree.Ascending below) : tree.Ascending wider := by
  -- Each name is compared with those behind it, in the folder and in all those within.
  induction tree with
  | nil => trivial
  | file name content rest ih =>
    exact ⟨fun other member => weaker name other (ascending.1 other member), ih ascending.2⟩
  | folder name entries rest inner ih =>
    exact ⟨fun other member => weaker name other (ascending.1 other member),
      inner ascending.2.1, ih ascending.2.2⟩

section Sorting

-- Different names come in one order or the other, and orders can be chained.
variable (total : ∀ first second, first ≠ second → below first second ∨ below second first)
  (trans : ∀ first second third, below first second → below second third → below first third)

include total trans

/-- An entry in front of others that ascend finds its place among them. -/
theorem exists_inserted (name : Text) (place : Place) (fresh : name ∉ rest.names)
    (inner : ∀ entries, place = .folder entries → entries.Ascending below)
    (ascending : rest.Ascending below) :
    ∃ sorted, Relisted (cons name place rest) sorted ∧ sorted.Ascending below := by
  -- The entry is moved behind the others until one follows that it comes before.
  induction rest using listing_induction with
  | nil => exact ⟨_, .refl _, ascending_cons.mpr ⟨by simp [FileTree.names], inner, trivial⟩⟩
  | cons other second rest _ ih =>
    obtain ⟨first, others, behind⟩ := ascending_cons.mp ascending
    rw [names_cons, List.mem_cons, not_or] at fresh
    -- Names are distinct, so one of the two comes first.
    rcases total name other fresh.1 with before | after
    · refine ⟨_, .refl _, ascending_cons.mpr ⟨?_, inner, ascending⟩⟩
      -- What comes behind the next entry comes behind this one, too.
      intro later member
      rw [names_cons, List.mem_cons] at member
      rcases member with rfl | member
      · exact before
      · exact trans name other later before (first later member)
    · -- The next entry goes to the front, and this one finds its place behind it.
      obtain ⟨sorted, relisted, sortedAscending⟩ := ih fresh.2 behind
      refine ⟨_, .trans (.swap name other place second rest) (relisted.cons other second),
        ascending_cons.mpr ⟨?_, others, sortedAscending⟩⟩
      intro later member
      rw [← relisted.names.mem_iff, names_cons, List.mem_cons] at member
      rcases member with rfl | member
      · exact after
      · exact first later member

/-- Every folder can be listed so that it and all folders in it ascend. -/
theorem exists_ascending (named : tree.WellNamed) :
    ∃ sorted, Relisted tree sorted ∧ sorted.Ascending below := by
  induction tree with
  | nil => exact ⟨nil, .nil, trivial⟩
  -- First everything behind the entry is put in order, and then the entry is put in its place.
  | file name content rest ih =>
    obtain ⟨sorted, relisted, ascending⟩ := ih named.2.2
    obtain ⟨all, inserted, allAscending⟩ := exists_inserted total trans name (.file content)
      (fun member => named.2.1 (relisted.names.mem_iff.mpr member)) (by simp) ascending
    exact ⟨all, .trans (.file name content relisted) inserted, allAscending⟩
  | folder name entries rest inner ih =>
    obtain ⟨sorted, relisted, ascending⟩ := ih named.2.2.2
    -- A folder is put in order inside before it is put in its place.
    obtain ⟨within, inside, withinAscending⟩ := inner named.2.2.1
    obtain ⟨all, inserted, allAscending⟩ := exists_inserted total trans name (.folder within)
      (fun member => named.2.1 (relisted.names.mem_iff.mpr member))
      (by rintro _ ⟨⟩; exact withinAscending) ascending
    exact ⟨all, .trans (.folder name inside relisted) inserted, allAscending⟩

end Sorting

/-- A folder in front of the names puts them in front of every file. -/
theorem files_prefix (tree : FileTree) (folders : List Text) :
    tree.files folders = (tree.files []).map fun file => (folders ++ file.1, file.2) := by
  -- The folders in front change on the way into a folder.
  induction tree generalizing folders with
  | nil => rfl
  | file name content rest ih => simp [files, ih folders]
  | folder name entries rest inner ih =>
    simp only [files, List.nil_append, List.map_append]
    rw [inner (folders ++ [name]), inner [name], ih folders]
    simp

/-- The files in a folder come before those that the entries behind it give. -/
theorem files_folder (name : Text) (entries rest : FileTree) :
    (folder name entries rest).files [] =
      (entries.files []).map (fun file => (name :: file.1, file.2)) ++ rest.files [] := by
  rw [files, files_prefix entries]
  rfl

/-- The files of the entry in front come first. -/
theorem files_cons (name : Text) (place : Place) (rest : FileTree) (folders : List Text) :
    (cons name place rest).files folders =
      (cons name place nil).files folders ++ rest.files folders := by
  cases place <;> simp [cons, files]

/-- Another order of listing gives the same files in another order. -/
theorem Relisted.files (relisted : Relisted tree other) (folders : List Text) :
    -- The names of the folders in front are the same in both orders.
    (tree.files folders).Perm (other.files folders) := by
  induction relisted generalizing folders with
  | nil => exact .nil
  | file name content _ ih => exact (ih folders).cons _
  | folder name _ _ inside ih => exact (inside _).append (ih folders)
  | swap name other first second rest =>
    -- The files of the two entries change places as a whole.
    rw [files_cons name first, files_cons other second rest,
      files_cons other second (.cons name first rest), files_cons name first rest]
    exact List.perm_append_comm_assoc _ _ _
  | trans _ _ first second => exact (first folders).trans (second folders)

/-- The names of a file start with one that the folder lists. -/
theorem files_start (tree : FileTree) :
    ∀ file ∈ tree.files [], ∃ name ∈ tree.names, ∃ more, file.1 = name :: more := by
  -- The names of a file start with the entry that holds it or is it.
  induction tree with
  | nil => simp [files]
  | file name content rest ih =>
    intro file member
    rcases List.mem_cons.mp member with rfl | member
    · exact ⟨name, List.mem_cons_self, [], rfl⟩
    · obtain ⟨first, listed, more, starts⟩ := ih file member
      exact ⟨first, List.mem_cons_of_mem name listed, more, starts⟩
  | folder name entries rest _ ih =>
    intro file member
    rw [files_folder, List.mem_append, List.mem_map] at member
    rcases member with ⟨inner, _, rfl⟩ | member
    · exact ⟨name, List.mem_cons_self, inner.1, rfl⟩
    · obtain ⟨first, listed, more, starts⟩ := ih file member
      exact ⟨first, List.mem_cons_of_mem name listed, more, starts⟩

/-- One name comes before another one. -/
def Precedes (first second : Text) : Prop :=
  nameInOrder first second = true ∧ first ≠ second

/-- Files whose first names are in order are in order themselves. -/
theorem files_precede {first second : Text} (precedes : Precedes first second)
    -- Their names differ at the front, and there they are in order.
    (more others : List Text) :
    namesInOrder (first :: more) (second :: others) = true ∧ first :: more ≠ second :: others :=
  ⟨(inOrder_cons_of_ne precedes.2 more others).trans precedes.1,
    fun same => precedes.2 (List.cons.inj same).1⟩

/-- Where all folders ascend, the files are listed in the order of their names. -/
theorem Ascending.files (ascending : tree.Ascending Precedes) :
    (tree.files []).Pairwise fun first second =>
      namesInOrder first.1 second.1 = true ∧ first.1 ≠ second.1 := by
  -- Files are listed entry by entry, and the names of the entries ascend.
  induction tree with
  | nil => exact .nil
  | file name content rest ih =>
    refine List.pairwise_cons.mpr ⟨?_, ih ascending.2⟩
    -- A later file starts with a later name.
    intro later member
    obtain ⟨first, listed, more, starts⟩ := files_start rest later member
    rw [starts]
    exact files_precede (ascending.1 first listed) [] more
  | folder name entries rest inner ih =>
    rw [files_folder, List.pairwise_append, List.pairwise_map]
    -- Files of the same folder are in order behind its name, as they are inside of it.
    refine ⟨(inner ascending.2.1).imp ?_, ih ascending.2.2, ?_⟩
    · rintro first second ⟨inOrder, different⟩
      exact ⟨(inOrder_cons_self name first.1 second.1).trans inOrder,
        fun same => different (List.cons.inj same).2⟩
    · intro file member later laterMember
      -- A later file stands outside of the folder, under a later name.
      obtain ⟨below, _, rfl⟩ := List.mem_map.mp member
      obtain ⟨first, listed, more, starts⟩ := files_start rest later laterMember
      rw [starts]
      exact files_precede (ascending.1 first listed) below.1 more

/-- Sorted files are in the order of their names. -/
theorem sortedFiles_ordered (tree : FileTree) :
    tree.sortedFiles.Pairwise fun first second => namesInOrder first.1 second.1 = true := by
  unfold sortedFiles
  refine List.pairwise_mergeSort ?_ ?_ _
  · -- Names in order can be chained.
    intro first second third
    exact orders_namesInOrder.trans first.1 second.1 third.1
  · intro first second
    -- Names that differ come in one order or the other, and equal ones in both.
    by_cases same : first.1 = second.1
    · rw [same, Bool.or_self]
      exact inOrder_refl second.1
    · rw [Bool.or_eq_true]
      exact orders_namesInOrder.total _ _ same

/-- Sorting all files is the same as listing every folder in order and going through it. -/
theorem Relisted.sortedFiles (relisted : Relisted tree other)
    (ascending : other.Ascending Precedes) : tree.sortedFiles = other.files [] := by
  -- Both lists hold the same files, and both of them are in order.
  have ordered := ascending.files
  have reordered : tree.sortedFiles.Perm (other.files []) :=
    (List.mergeSort_perm _ _).trans (relisted.files [])
  have distinct : ((other.files []).map Prod.fst).Nodup :=
    List.pairwise_map.mpr (ordered.imp And.right)
  refine reordered.eq_of_pairwise ?_ tree.sortedFiles_ordered (ordered.imp And.left)
  -- Two files in order both ways have the same names, and so are the same.
  intro first second member otherMember below above
  exact List.inj_on_of_nodup_map distinct (reordered.mem_iff.mp member) otherMember
    (orders_namesInOrder.antisymm _ _ below above)

/-- Names that lead from a folder through its entries to a file. -/
inductive Leads : FileTree → List Text → Content → Prop
  /-- A name leads to the file that has it. -/
  | file {tree : FileTree} {name : Text} {content : Content}
      (found : tree.entry? name = some (.file content)) : Leads tree [name] content
  /-- Names lead to what they lead to from the folder that has the first one. -/
  | folder {tree entries : FileTree} {name : Text} {names : List Text} {content : Content}
      (found : tree.entry? name = some (.folder entries)) (leads : Leads entries names content) :
      Leads tree (name :: names) content

/-- What is found has a name that is listed. -/
theorem mem_names_of_found {wanted : Text} (found : tree.entry? wanted = some place) :
    wanted ∈ tree.names := by
  -- The name is that of the entry in front, or one that is listed behind it.
  induction tree using listing_induction with
  | nil => simp [ entry?] at found
  | cons name first rest _ ih =>
    rw [entry?_cons] at found
    rw [names_cons, List.mem_cons]
    split at found
    · exact .inl (Eq.symm ‹_›)
    · exact .inr (ih found)

/-- A new entry in front of others does not hide what they lead to. -/
theorem Leads.behind {names : List Text} {content : Content} (leads : Leads rest names content)
    (place : Place) (fresh : name ∉ rest.names) : Leads (cons name place rest) names content := by
  -- The new entry has a name of its own, so that no entry behind it is hidden.
  have hidden {wanted : Text} {found : Place} (located : rest.entry? wanted = some found) :
      FileTree.entry? (cons name place rest) wanted = some found := by
    rw [entry?_cons, if_neg, located]
    rintro rfl
    exact fresh (mem_names_of_found located)
  cases leads with
  | file found => exact .file (hidden found)
  | folder found leads => exact .folder (hidden found) leads

/-- The files of a folder are those that names lead to. -/
theorem mem_files_iff (named : tree.WellNamed) (names : List Text) (content : Content) :
    (names, content) ∈ tree.files [] ↔ Leads tree names content := by
  -- The induction is on the listing, and every folder in it has its own hypothesis.
  induction tree generalizing names with
  | nil =>
    -- Nothing can be found where nothing is listed.
    simp only [files, List.not_mem_nil, false_iff]
    rintro (found | found) <;> cases found
  | file name inside rest ih =>
    rw [files, List.mem_cons, ih named.2.2]
    constructor
    · -- The file is the one in front, or it is found behind it.
      rintro (same | leads)
      · cases same
        exact .file (if_pos rfl)
      · exact leads.behind (.file inside) named.2.1
    · -- Names that lead somewhere either name the entry in front or pass it by.
      rintro (found | ⟨found, leads⟩) <;> rw [ entry?] at found <;> split at found
      · cases found
        subst name
        exact .inl rfl
      · exact .inr (.file found)
      · cases found
      · exact .inr (.folder found leads)
  | folder name entries rest inner ih =>
    rw [files_folder, List.mem_append, List.mem_map, ih named.2.2.2]
    constructor
    · -- The file is below the folder in front, or it is found behind it.
      rintro (⟨file, member, same⟩ | leads)
      · cases same
        exact .folder (if_pos rfl) ((inner named.2.2.1 file.1).mp member)
      · exact leads.behind (.folder entries) named.2.1
    · rintro (found | ⟨found, leads⟩) <;> rw [ entry?] at found <;> split at found
      · cases found
      · exact .inr (.file found)
      · cases found
        subst name
        exact .inl ⟨_, (inner named.2.2.1 _).mpr leads, rfl⟩
      · exact .inr (.folder found leads)

/-- No name on the way to a file has a slash. -/
theorem plain_of_mem_files (named : tree.WellNamed) :
    ∀ file ∈ tree.files [], ∀ name ∈ file.1, '/' ∉ name := by
  -- The names of a file are those of the folders on the way and its own.
  induction tree with
  | nil => simp [files]
  | file name content rest ih =>
    intro file member
    rcases List.mem_cons.mp member with rfl | member
    · intro only listed
      rw [List.mem_singleton.mp listed]
      exact named.1
    · exact ih named.2.2 file member
  | folder name entries rest inner ih =>
    intro file member
    rw [files_folder, List.mem_append, List.mem_map] at member
    rcases member with ⟨below, inside, rfl⟩ | member
    · exact List.forall_mem_cons.mpr ⟨named.1, inner named.2.2.1 below inside⟩
    · exact ih named.2.2.2 file member

/-- Every folder can be listed in the order of the names. -/
theorem exists_sorted (named : tree.WellNamed) :
    ∃ sorted, Relisted tree sorted ∧ sorted.Ascending Precedes := by
  refine exists_ascending ?_ ?_ named
  · -- Any two different names come in one order or the other.
    intro first second different
    exact (orders_nameInOrder.total first second different).imp (⟨·, different⟩)
      (⟨·, Ne.symm different⟩)
  · -- Orders of names can be chained, and the ends of a chain are different names.
    rintro first second third ⟨below, different⟩ ⟨above, _⟩
    refine ⟨orders_nameInOrder.trans first second third below above, ?_⟩
    rintro rfl
    exact different (orders_nameInOrder.antisymm first second below above)

/-- The sorted files are the same in every order of listing. -/
theorem Relisted.sortedFiles_eq (relisted : Relisted tree other) (named : tree.WellNamed) :
    tree.sortedFiles = other.sortedFiles := by
  -- Both are the files of one listing in which every folder ascends.
  obtain ⟨sorted, again, ascending⟩ := exists_sorted (relisted.wellNamed named)
  rw [(relisted.trans again).sortedFiles ascending, again.sortedFiles ascending]

end FileTree

end RegexLens
