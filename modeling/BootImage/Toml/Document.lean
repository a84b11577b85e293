import BootImage.Toml.Lexical
import BootImage.Toml.Value

/-!
# Documents

A TOML document is a sequence of lines: a key with its value, a header, a comment, or nothing.
`Document.parse?` gives the table that the lines of a text make.
-/

namespace BootImage.Toml

/-! ## §1 Values -/

/-- How deep values can be nested. -/
def nestingLimit : Nat := 80

mutual

/-- A value. The first number bounds the steps, the second the nesting. -/
def value? : Nat → Nat → List Char → Option (Value × List Char)
  | fuel + 1, depth + 1, text =>
    match text with
    | '[' :: rest => do
      let (items, rest) ← items? fuel depth rest []
      some (.array items, rest)
    | '{' :: rest => do
      -- Braces hold at least one entry, or nothing at all.
      match blanks rest with
      | '}' :: rest => some (.table .braces [], rest)
      | rest => do
        let (entries, rest) ← entries? fuel depth rest []
        some (.table .braces entries, rest)
    | 't' :: 'r' :: 'u' :: 'e' :: rest => some (.flag true, rest)
    | 'f' :: 'a' :: 'l' :: 's' :: 'e' :: rest => some (.flag false, rest)
    -- Numbers and dates end here, and so does everything that is no value.
    | text => (quoted? text).map fun read => (.text read.1, read.2)
  | _, _, _ => none

/-- The items of an array behind those already read, which are given last one first. -/
def items? : Nat → Nat → List Char → List Value → Option (List Value × List Char)
  | 0, _, _, _ => none
  | fuel + 1, depth, text, read =>
    -- A comma may stand behind the last item.
    match filler fuel text with
    | ']' :: rest => some (read.reverse, rest)
    | start => do
      let (item, rest) ← value? fuel depth start
      match filler fuel rest with
      | ',' :: rest => items? fuel depth rest (item :: read)
      | ']' :: rest => some ((item :: read).reverse, rest)
      | _ => none

/-- The entries of a table in braces behind those already read. -/
def entries? : Nat → Nat → List Char → Table → Option (Table × List Char)
  | 0, _, _, _ => none
  | fuel + 1, depth, text, read => do
    -- Braces take no line ends and no comma behind the last entry.
    let (path, rest) ← keyPath? fuel text
    match rest with
    | '=' :: rest => do
      let (value, rest) ← value? fuel depth (blanks rest)
      let read ← read.assign? path.dropLast (path.getLastD "") value
      match blanks rest with
      | ',' :: rest => entries? fuel depth rest read
      | '}' :: rest => some (read, rest)
      | _ => none
    | _ => none

end

/-! ## §2 Lines -/

/-- What the lines so far have made. -/
structure Document where
  /-- The outermost table. -/
  root : Table := []
  /-- The path of the table that keys are put into. -/
  place : List String := []
  deriving Repr

namespace Document

/-- The document behind a line with a key and its value. -/
def keyLine? (document : Document) (text : List Char) : Option (Document × List Char) := do
  let (path, rest) ← keyPath? text.length text
  match rest with
  | '=' :: rest => do
    let (value, rest) ← value? (rest.length + 1) nestingLimit (blanks rest)
    -- Nothing but a comment may follow the value.
    let rest ← lineTail? rest
    let root ← document.root.update? document.place
      (Table.assign? path.dropLast (path.getLastD "") value)
    some ({ document with root := root }, rest)
  | _ => none

/-- The document behind a header, given the text behind its opening brackets. -/
def headerLine? (document : Document) (change : String → Table → Option Table)
    (closing text : List Char) : Option (Document × List Char) := do
  let (path, rest) ← keyPath? text.length text
  if closing.isPrefixOf rest then
    let rest ← lineTail? (rest.drop closing.length)
    -- The tables on the way are made, and the last one is opened.
    let root ← document.root.update? path.dropLast (change (path.getLastD ""))
    some (⟨root, path⟩, rest)
  else none

/-- The document behind a line. -/
def line? (document : Document) (text : List Char) : Option (Document × List Char) :=
  match text with
  -- Two brackets have to be tried before one.
  | '[' :: '[' :: rest => document.headerLine? Table.openElement? [']', ']'] rest
  | '[' :: rest => document.headerLine? Table.openTable? [']'] rest
  | '#' :: _ => (lineEnd? (comment text)).map fun rest => (document, rest)
  | '\n' :: rest => some (document, rest)
  | '\r' :: '\n' :: rest => some (document, rest)
  -- Everything else has to be a key with its value.
  | text => document.keyLine? text

/-- The document behind all lines. -/
def lines? : Nat → Document → List Char → Option Document
  | 0, _, _ => none
  | fuel + 1, document, text =>
    match blanks text with
    | [] => some document
    | start => do
      let (document, rest) ← document.line? start
      lines? fuel document rest

/-- The table that a text stands for. A byte-order mark in front is skipped. -/
def parse? (text : String) : Option Table :=
  let chars := match text.toList with
    | '\uFEFF' :: rest => rest
    | chars => chars
  (lines? (chars.length + 1) {} chars).map (·.root)

end Document

end BootImage.Toml
