/-!
# Paths

A path is the text it was given as: it is printed back unchanged, and only what an operation needs
is read from it. Components are separated by `/`; empty components and `.` are skipped when looking
for the last one, and `..` is a component of its own, never resolved here.

- `join`: a relative path continues its base, an absolute one replaces it.
- `parent?`, `fileName?`, `extension?`, `withExtension`: what the last component says.
-/

namespace BootImage

/-- The path of a file or directory. -/
structure Path where
  /-- The path as written. -/
  text : String
  deriving DecidableEq, Repr, Inhabited

namespace Path

/-! ## §1 Joining -/

/-- A path that starts at the root. -/
def isAbsolute (p : Path) : Bool := p.text.toList.head? == some '/'

/-- The separator that a continuation of `base` needs: none after an empty path or a separator. -/
def separator (base : Path) : String :=
  match base.text.toList.getLast? with
  | none => ""
  | some c => if c = '/' then "" else "/"

/-- The path `p` as seen from `base`. An absolute path does not depend on the base. -/
def join (base p : Path) : Path :=
  if p.isAbsolute then p else ⟨base.text ++ (base.separator ++ p.text)⟩

/-- An absolute path is the same from everywhere. -/
theorem join_of_isAbsolute {base p : Path} (h : p.isAbsolute = true) : base.join p = p := by
  simp [join, h]

/-- A path seen from an absolute base is absolute. -/
theorem isAbsolute_join {base p : Path} (h : base.isAbsolute = true) :
    (base.join p).isAbsolute = true := by
  unfold join
  split
  · assumption
  · unfold isAbsolute at h ⊢
    simp only [beq_iff_eq] at h ⊢
    simp only [String.toList_append]
    -- The joined path starts with the base, and so with its first character.
    cases hb : base.text.toList with
    | nil => simp [hb] at h
    | cons c cs => simpa [hb] using h

/-! ## §2 Components -/

/-- The pieces between separators: `a//b` has the pieces `a`, an empty one, and `b`. -/
def pieces : List Char → List (List Char)
  | [] => [[]]
  | c :: cs =>
    if c = '/' then [] :: pieces cs
    else match pieces cs with
      | [] => [[c]]
      | p :: ps => (c :: p) :: ps

/-- What a path starts from, the root or an explicit `.`, and what follows it. -/
def anchor : List Char → List Char × List Char
  | '/' :: rest => (['/'], rest)
  | ['.'] => (['.'], [])
  | '.' :: '/' :: rest => (['.'], '/' :: rest)
  | cs => ([], cs)

/-- A piece that names nothing: an empty one or `.`. -/
def namesNothing (piece : List Char) : Bool := piece.isEmpty || piece == ['.']

/-- The pieces of a text, last one first, without those at its end that name nothing. -/
def trimmedPieces (cs : List Char) : List (List Char) :=
  (pieces cs).reverse.dropWhile namesNothing

/-- The text of pieces that are listed last one first. -/
def textOf (reversed : List (List Char)) : List Char := ['/'].intercalate reversed.reverse

/-- The path without its last component. The root and the empty path have none. -/
def parent? (p : Path) : Option Path :=
  match anchor p.text.toList with
  | (start, body) =>
    match trimmedPieces body with
    | [] => if start = ['.'] then some ⟨""⟩ else none
    | _ :: rest => some ⟨String.ofList (start ++ textOf (rest.dropWhile namesNothing))⟩

/-! ## §3 File names and extensions -/

/-- The last component, if it names a file: `..` does not. -/
def fileName? (p : Path) : Option (List Char) :=
  match trimmedPieces (anchor p.text.toList).2 with
  | [] => none
  | name :: _ => if name = ['.', '.'] then none else some name

/-- A file name in front of its last dot, and the extension behind it. A dot in front of everything
else starts no extension. -/
def splitName (name : List Char) : List Char × Option (List Char) :=
  match name.reverse.dropWhile (· != '.') with
  | [] => (name, none)
  | [_] => (name, none)
  | _ :: stem => (stem.reverse, some (name.reverse.takeWhile (· != '.')).reverse)

/-- The extension of the file name, without its dot. -/
def extension? (p : Path) : Option (List Char) := p.fileName?.bind fun name => (splitName name).2

/-- The path with the extension of its file name replaced, or added where there is none. A path
without a file name stays as it is. -/
def withExtension (p : Path) (ext : String) : Path :=
  match anchor p.text.toList with
  | (start, body) =>
    match trimmedPieces body with
    | [] => p
    | name :: rest =>
      if name = ['.', '.'] then p
      else ⟨String.ofList (start ++ textOf ((splitName name).1 :: rest)) ++ "." ++ ext⟩

end Path

end BootImage
