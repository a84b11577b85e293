import BootImage.FileSystem

/-!
# Directory trees

A file system given by the files and directories below a working directory, with the host's rules
for following a path: every component but the last has to be a directory, a trailing separator asks
for one too, `..` leads back, and names and paths have a greatest length. Outside of the working
directory there is nothing but directories without entries.
-/

namespace BootImage

/-- Files and directories, each under the names that lead to it from the working directory. -/
structure Tree where
  /-- The entries, the latest first. -/
  entries : List (List String × Node)
  deriving Repr

namespace Tree

/-! ## §1 Building -/

/-- The tree without entries. -/
def empty : Tree := ⟨[]⟩

/-- What the names lead to. -/
def find? (tree : Tree) (names : List String) : Option Node :=
  -- The working directory itself has no entry.
  if names.isEmpty then some .directory
  else (tree.entries.find? fun entry => entry.1 == names).map (·.2)

/-- The names that a path written relative to the working directory leads to, with every directory
that is passed on the way. -/
def walk (path : Path) : List (List String) :=
  let step (passed : List (List String)) (piece : List Char) : List (List String) :=
    let here := passed.headD []
    -- An empty piece or a single dot stays where it is.
    if Path.namesNothing piece then passed
    else if piece == ['.', '.'] then here.dropLast :: passed
    else (here ++ [String.ofList piece]) :: passed
  (Path.pieces path.text.toList).foldl step []

/-- The tree with the given directories, unless it has them. -/
def addDirectories (tree : Tree) (places : List (List String)) : Tree :=
  places.foldl
    (fun t names => if (t.find? names).isSome then t else ⟨(names, .directory) :: t.entries⟩) tree

/-- The tree with a directory, and those it is in. -/
def addDirectory (tree : Tree) (path : Path) : Tree := tree.addDirectories (walk path).reverse

/-- The tree with a file, and the directories it is in. -/
def addFile (tree : Tree) (path : Path) (content : Bytes) : Tree :=
  match walk path with
  -- No file has the place of the working directory.
  | [] => tree
  | place :: passed => ⟨(place, .regular content) :: (tree.addDirectories passed.reverse).entries⟩

/-! ## §2 Following a path -/

/-- The greatest number of bytes of a name. -/
def nameLimit : Nat := 255

/-- The number of bytes that a whole path has to stay below. -/
def pathLimit : Nat := 4096

/-- A place that a path has led to so far. -/
inductive Place where
  /-- A node below the working directory. -/
  | inside (names : List String) (node : Node)
  /-- A directory elsewhere. -/
  | outside

/-- The node at a place. -/
def Place.node : Place → Node
  | .inside _ node => node
  | .outside => .directory

/-- The place that one more piece of a path leads to. -/
def step (tree : Tree) (place : Place) (piece : List Char) : Except SystemError Place :=
  match place with
  -- Nothing can be followed behind a file, not even a trailing separator.
  | .inside _ (.regular _) => .error .notDirectory
  -- From outside no name leads back in.
  | .outside =>
    if Path.namesNothing piece || piece == ['.', '.'] then .ok .outside
    else if nameLimit < (String.ofList piece).utf8ByteSize then .error .nameTooLong
    else .error .noEntry
  | .inside names .directory =>
    -- Inside, dots are followed and names are looked up.
    if Path.namesNothing piece then .ok place
    else if piece == ['.', '.'] then
      .ok (if names.isEmpty then .outside else .inside names.dropLast .directory)
    else if nameLimit < (String.ofList piece).utf8ByteSize then .error .nameTooLong
    else
      match tree.find? (names ++ [String.ofList piece]) with
      | some node => .ok (.inside (names ++ [String.ofList piece]) node)
      | none => .error .noEntry

/-- The node that a path leads to. -/
def resolve (tree : Tree) (path : Path) : Except SystemError Node :=
  -- The host refuses these texts before it follows them.
  if path.text.toList.contains '\x00' then .error .embeddedNul
  else if path.text.isEmpty then .error .noEntry
  else if pathLimit ≤ path.text.utf8ByteSize then .error .nameTooLong
  else
    let start := if path.isAbsolute then .outside else .inside [] .directory
    ((Path.pieces path.text.toList).foldlM tree.step start).map Place.node

/-- The tree as a file system. -/
def files (tree : Tree) : FileSystem := ⟨tree.resolve⟩

end Tree

end BootImage
