import RegexLens.Text

/-! Files and folders, listed in any order and addressed by paths. -/

namespace RegexLens

/-- What reading a file or a stream gives. -/
inductive Content
  /-- The text that the bytes encode. -/
  | text (content : Text)
  /-- Bytes that are not the UTF-8 form of any text. -/
  | undecodable
deriving DecidableEq, Repr

/-- The entries of a folder in the order in which they are listed. -/
inductive FileTree
  /-- No more entries. -/
  | nil
  /-- A file, and then the other entries. -/
  | file (name : Text) (content : Content) (rest : FileTree)
  /-- A folder with its own entries, and then the other entries. -/
  | folder (name : Text) (entries rest : FileTree)
deriving DecidableEq, Repr

/-- What a path leads to. -/
inductive Place
  /-- A file. -/
  | file (content : Content)
  /-- A folder. -/
  | folder (entries : FileTree)
deriving DecidableEq, Repr

/-- A path as its names, which a slash separates; two slashes have an empty name between them. -/
def splitPath : Text → List Text
  | [] => [[]]
  | symbol :: rest =>
    if symbol = '/' then [] :: splitPath rest
    else
      match splitPath rest with
      -- No text is split into no names, so this case does not arise.
      | [] => [[symbol]]
      | name :: names => (symbol :: name) :: names

/-- Whether two lists are equal or in order at the first place where they differ. -/
def inOrder {Item : Type} [DecidableEq Item] (before : Item → Item → Bool) :
    List Item → List Item → Bool
  | [], _ => true
  | _ :: _, [] => false
  | first :: rest, second :: others =>
    if first = second then inOrder before rest others else before first second

/-- Whether two names are in the order of their bytes, which is also that of their code points. -/
def nameInOrder (first second : Text) : Bool :=
  inOrder (fun symbol other => symbol.toNat < other.toNat) first second

/-- Whether two paths are in order, name by name. -/
def namesInOrder (first second : List Text) : Bool :=
  inOrder nameInOrder first second

namespace FileTree

/-- The entry of a folder with a name. -/
def entry? (tree : FileTree) (wanted : Text) : Option Place :=
  match tree with
  | nil => none
  | file name content rest => if name = wanted then some (.file content) else rest.entry? wanted
  | folder name entries rest =>
    if name = wanted then some (.folder entries) else rest.entry? wanted

/-- The folders that lead to a name, around an entry that nothing precedes. -/
def within (names : List Text) (entry : FileTree → FileTree) (rest : FileTree) : FileTree :=
  match names with
  | [] => entry rest
  | name :: names => folder name (within names entry nil) rest

/-- Adds an entry below the folders with the given names, which are made where they are missing. -/
def insert (tree : FileTree) (names : List Text) (entry : FileTree → FileTree) : FileTree :=
  match tree, names with
  | nil, _ => within names entry nil
  -- A file is no way to a folder below it.
  | file other content rest, _ => file other content (rest.insert names entry)
  | folder other entries rest, [] => folder other entries (rest.insert [] entry)
  | folder other entries rest, name :: names =>
    -- The folder that has the first name is gone into, and the other names lead on from there.
    if other = name then folder other (entries.insert names entry) rest
    else folder other entries (rest.insert (name :: names) entry)

/-- Adds a file with a path from here. -/
def addFile (tree : FileTree) (path : Text) (content : Content) : FileTree :=
  let names := splitPath path
  tree.insert names.dropLast (file (names.getLastD []) content)

/-- Adds an empty folder with a path from here, unless there is one. -/
def addFolder (tree : FileTree) (path : Text) : FileTree :=
  tree.insert (splitPath path) id

/-- Follows the names of a path from a place, with the folders around it, innermost first. -/
def follow? (around : List FileTree) (here : Place) : List Text → Option Place
  | [] => some here
  | name :: names =>
    match here with
    | .file _ => none
    | .folder entries =>
      -- An empty name and a dot stay where they are.
      if name = [] || name = ['.'] then follow? around here names
      else if name = ['.', '.'] then
        match around with
        -- Above the outermost folder there is nothing.
        | [] => none
        | outer :: around => follow? around (.folder outer) names
      else
        match entries.entry? name with
        | none => none
        | some place => follow? (entries :: around) place names

/-- What a path from here leads to; nothing outside the tree can be reached. -/
def at? (tree : FileTree) (path : Text) : Option Place :=
  if path = [] || path.head? = some '/' then none
  else follow? [] (.folder tree) (splitPath path)

/-- All files below a folder in the order of listing, each with the names that lead to it. -/
def files (tree : FileTree) (folders : List Text) : List (List Text × Content) :=
  match tree with
  | nil => []
  | file name content rest => (folders ++ [name], content) :: rest.files folders
  | folder name entries rest => entries.files (folders ++ [name]) ++ rest.files folders

/-- All files below a folder, ordered by the names that lead to them. -/
def sortedFiles (tree : FileTree) : List (List Text × Content) :=
  (tree.files []).mergeSort fun first second => namesInOrder first.1 second.1

end FileTree

end RegexLens
