/-!
# Values and tables of a manifest

The values of a TOML document that a manifest can use, and how the lines of a document put them into
nested tables. Every table knows how it came about, because a table may only be continued by lines
of the kind that opened it.

- `Table.assign?`: a key, dotted or not, is given a value; each key has one.
- `Table.openTable?`, `Table.openElement?`: a header opens a table, or one more table of a list.
- `Table.update?`: the table that a header opened is changed in place.
-/

namespace BootImage.Toml

/-- How a table came about. -/
inductive Origin where
  /-- As part of the path of a header. -/
  | implied
  /-- By a header of its own. -/
  | header
  /-- As part of a dotted key. -/
  | dotted
  /-- As a value in braces, which nothing can be added to. -/
  | braces
  deriving DecidableEq, Repr

/-- A value. Numbers and dates are not among them: no manifest has a use for one. -/
inductive Value where
  /-- A string. -/
  | text (content : String)
  /-- A boolean. -/
  | flag (content : Bool)
  /-- An array in brackets, which nothing can be added to. -/
  | array (items : List Value)
  /-- A table. -/
  | table (origin : Origin) (entries : List (String × Value))
  /-- A list of tables, each opened by a header; the last one first. -/
  | tables (reversed : List (List (String × Value)))
  deriving Repr, Inhabited

/-- The entries of a table, in the order in which they were given. -/
abbrev Table := List (String × Value)

namespace Table

/-- The value of a key. -/
def get? (table : Table) (key : String) : Option Value :=
  (table.find? fun entry => entry.1 == key).map (·.2)

/-- The table with a value in place of the one that its key has, or at the end. -/
def set (table : Table) (key : String) (value : Value) : Table :=
  if (table.get? key).isSome then
    -- The key keeps its place.
    table.map fun entry => if entry.1 == key then (key, value) else entry
  else table ++ [(key, value)]

/-- The table with a value for a key that has none yet. The path in front of the key names tables
that dotted keys alone have made, or makes them. -/
def assign? : List String → String → Value → Table → Option Table
  -- A key is given one value and no other.
  | [], key, value, table => if (table.get? key).isSome then none else some (table.set key value)
  | name :: path, key, value, table =>
    match table.get? name with
    | none => do
      let inner ← assign? path key value []
      some (table.set name (.table .dotted inner))
    | some (.table origin inner) => do
      -- A dotted key may pass through a table that headers implied, but only add to one of its own
      -- kind.
      let continuable := if path.isEmpty then origin == .dotted
        else origin == .dotted || origin == .implied
      if continuable then
        let inner ← assign? path key value inner
        some (table.set name (.table origin inner))
      else none
    | some (.tables (last :: earlier)) => do
      if path.isEmpty then none
      else
        -- A list stands for its last table.
        let last ← assign? path key value last
        some (table.set name (.tables (last :: earlier)))
    | some _ => none

/-- The table with a change made to the one at the end of a path of headers, which makes the tables
on its way. -/
def update? : List String → (Table → Option Table) → Table → Option Table
  | [], change, table => change table
  | name :: path, change, table =>
    match table.get? name with
    | none => do
      let inner ← update? path change []
      some (table.set name (.table .implied inner))
    | some (.table origin inner) => do
      -- Values in braces are complete.
      if origin == .braces then none
      else
        let inner ← update? path change inner
        some (table.set name (.table origin inner))
    | some (.tables (last :: earlier)) => do
      let last ← update? path change last
      some (table.set name (.tables (last :: earlier)))
    | some _ => none

/-- The table with a key opened by a header. A table that was only implied so far may be opened. -/
def openTable? (key : String) (table : Table) : Option Table :=
  match table.get? key with
  | none => some (table.set key (.table .header []))
  -- What was put into it by then stays.
  | some (.table .implied inner) => some (table.set key (.table .header inner))
  | some _ => none

/-- The table with one more element in the list of tables of a key. -/
def openElement? (key : String) (table : Table) : Option Table :=
  match table.get? key with
  | none => some (table.set key (.tables [[]]))
  -- A list in brackets is a value, and no header can add to it.
  | some (.tables reversed) => some (table.set key (.tables ([] :: reversed)))
  | some _ => none

end Table

end BootImage.Toml
