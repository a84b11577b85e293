/-!
# Blanks, strings and keys of a manifest

The lexical parts of a TOML document. Each reader takes what it names from the front of a text and
gives the rest, or refuses the text.

- `blanks`, `lineEnd?`, `lineTail?`, `filler`: what separates values.
- `quoted?`: the four kinds of strings.
- `keyPath?`: keys, dotted or not.
-/

namespace BootImage.Toml

/-! ## §1 Characters -/

/-- A space or tab. -/
def isBlank (c : Char) : Bool := c == ' ' || c == '\t'

/-- A character that strings and comments can hold as it is: a tab, or none of the ASCII control
characters. -/
def isPlain (c : Char) : Bool := c == '\t' || (0x20 ≤ c.val && c.val != 0x7F)

/-- A character of a key without quotes. -/
def isKeyChar (c : Char) : Bool :=
  ('a' ≤ c && c ≤ 'z') || ('A' ≤ c && c ≤ 'Z') || ('0' ≤ c && c ≤ '9') || c == '-' || c == '_'

/-- The value of a hexadecimal digit. -/
def hexDigit? (c : Char) : Option Nat :=
  if '0' ≤ c && c ≤ '9' then some (c.toNat - '0'.toNat)
  else if 'a' ≤ c && c ≤ 'f' then some (c.toNat - 'a'.toNat + 10)
  else if 'A' ≤ c && c ≤ 'F' then some (c.toNat - 'A'.toNat + 10)
  else none

/-- The character with a code given in hexadecimal digits. Surrogates have none. -/
def charOfHex? (digits : List Char) : Option Char := do
  let values ← digits.mapM hexDigit?
  let code := values.foldl (fun code digit => code * 16 + digit) 0
  if code.isValidChar then some (Char.ofNat code) else none

/-- The character that a letter behind a backslash stands for. -/
def escaped? : Char → Option Char
  | 'b' => some '\x08'
  | 't' => some '\t'
  | 'n' => some '\n'
  | 'f' => some '\x0c'
  | 'r' => some '\r'
  | '"' => some '"'
  | '\\' => some '\\'
  | _ => none

/-! ## §2 Blanks, line ends and comments -/

/-- The text behind spaces and tabs. -/
def blanks (text : List Char) : List Char := text.dropWhile isBlank

/-- The text behind a line end. -/
def newline? : List Char → Option (List Char)
  | '\n' :: rest => some rest
  | '\r' :: '\n' :: rest => some rest
  | _ => none

/-- The text behind a line end, or the end of the text itself. -/
def lineEnd? : List Char → Option (List Char)
  | [] => some []
  -- The last line needs no end.
  | text => newline? text

/-- The text behind a comment, if it starts with one. -/
def comment : List Char → List Char
  | '#' :: rest => rest.dropWhile isPlain
  | text => text

/-- The text behind the rest of a line that holds nothing more. -/
def lineTail? (text : List Char) : Option (List Char) := lineEnd? (comment (blanks text))

/-- The text behind blanks, comments and line ends, as they may stand between the values of an
array. -/
def filler : Nat → List Char → List Char
  | 0, text => text
  | fuel + 1, text =>
    let start := blanks text
    -- A comment counts only with its line end; otherwise the text in front of it is kept.
    match newline? (comment start) with
    | some rest => filler fuel rest
    | none => start

/-! ## §3 Strings -/

/-- A string of one line in double quotes, behind the opening one. -/
def basicString? : List Char → List Char → Option (String × List Char)
  | '"' :: rest, read => some (String.ofList read.reverse, rest)
  -- Codes have a fixed number of digits, and are tried before single letters.
  | '\\' :: 'u' :: a :: b :: c :: d :: rest, read => do
    basicString? rest ((← charOfHex? [a, b, c, d]) :: read)
  | '\\' :: 'U' :: a :: b :: c :: d :: e :: f :: g :: h :: rest, read => do
    basicString? rest ((← charOfHex? [a, b, c, d, e, f, g, h]) :: read)
  | '\\' :: c :: rest, read => do basicString? rest ((← escaped? c) :: read)
  | c :: rest, read => if isPlain c && c != '\\' then basicString? rest (c :: read) else none
  | [], _ => none

/-- A string of one line in single quotes, behind the opening one. -/
def literalString? : List Char → List Char → Option (String × List Char)
  | '\'' :: rest, read => some (String.ofList read.reverse, rest)
  | c :: rest, read => if isPlain c then literalString? rest (c :: read) else none
  | [], _ => none

/-- The end of a string of several lines, behind three closing quotes. Up to two more quotes belong
to the string and stand in front of those. -/
def closeLines (quote : Char) (read : List Char) : List Char → String × List Char
  | a :: b :: rest =>
    if a = quote && b = quote then (String.ofList (quote :: quote :: read).reverse, rest)
    else if a = quote then (String.ofList (quote :: read).reverse, b :: rest)
    else (String.ofList read.reverse, a :: b :: rest)
  | [a] =>
    if a = quote then (String.ofList (quote :: read).reverse, [])
    else (String.ofList read.reverse, [a])
  | [] => (String.ofList read.reverse, [])

/-- The text behind blanks and line ends. -/
def blankLines : List Char → List Char
  | ' ' :: rest => blankLines rest
  | '\t' :: rest => blankLines rest
  | '\n' :: rest => blankLines rest
  | '\r' :: '\n' :: rest => blankLines rest
  | text => text

/-- Skipping blanks makes no text longer, so readers behind it come to an end. -/
theorem length_blankLines (text : List Char) : (blankLines text).length ≤ text.length := by
  fun_induction blankLines text <;> grind

/-- The text behind a backslash at the end of a line: all blanks and line ends are skipped. -/
def continuation? (text : List Char) : Option (List Char) :=
  if (newline? (blanks text)).isSome then some (blankLines text) else none

/-- A line that is continued leaves no more to read than there was. -/
theorem length_continuation? {text rest : List Char} (h : continuation? text = some rest) :
    rest.length ≤ text.length := by
  unfold continuation? at h
  split at h
  · cases h
    exact length_blankLines text
  · cases h

/-- A string of several lines in double quotes, behind the opening ones. -/
def basicLines? (text read : List Char) : Option (String × List Char) :=
  match text with
  | '"' :: '"' :: '"' :: rest => some (closeLines '"' read rest)
  | '\\' :: 'u' :: a :: b :: c :: d :: rest => do
    basicLines? rest ((← charOfHex? [a, b, c, d]) :: read)
  | '\\' :: 'U' :: a :: b :: c :: d :: e :: f :: g :: h :: rest => do
    basicLines? rest ((← charOfHex? [a, b, c, d, e, f, g, h]) :: read)
  | '\\' :: rest =>
    -- A backslash at the end of a line joins it to the next one.
    match _ : continuation? rest with
    | some behind => basicLines? behind read
    | none =>
      match rest with
      | c :: rest => do basicLines? rest ((← escaped? c) :: read)
      | [] => none
  -- Line ends are read as one character.
  | '\r' :: '\n' :: rest => basicLines? rest ('\n' :: read)
  | c :: rest => if isPlain c || c == '\n' then basicLines? rest (c :: read) else none
  | [] => none
termination_by text.length
decreasing_by
  all_goals try have shorter := length_continuation? ‹_›
  all_goals simp only [List.length_cons]
  all_goals omega

/-- A string of several lines in single quotes, behind the opening ones. -/
def literalLines? : List Char → List Char → Option (String × List Char)
  | '\'' :: '\'' :: '\'' :: rest, read => some (closeLines '\'' read rest)
  | '\r' :: '\n' :: rest, read => literalLines? rest ('\n' :: read)
  | c :: rest, read => if isPlain c || c == '\n' then literalLines? rest (c :: read) else none
  | [], _ => none

/-- The text behind the line end that may follow the opening quotes of several lines. -/
def openLines (text : List Char) : List Char := (newline? text).getD text

/-- A string of any kind. -/
def quoted? : List Char → Option (String × List Char)
  -- Three quotes have to be tried before one, of either kind.
  | '"' :: '"' :: '"' :: rest => basicLines? (openLines rest) []
  | '\'' :: '\'' :: '\'' :: rest => literalLines? (openLines rest) []
  | '"' :: rest => basicString? rest []
  | '\'' :: rest => literalString? rest []
  | _ => none

/-! ## §4 Keys -/

/-- A single key. -/
def key? : List Char → Option (String × List Char)
  | '"' :: rest => basicString? rest []
  | '\'' :: rest => literalString? rest []
  | text =>
    let name := text.takeWhile isKeyChar
    -- Without quotes a key has one character at least.
    if name.isEmpty then none else some (String.ofList name, text.dropWhile isKeyChar)

/-- Keys with dots between them, and blanks around each. -/
def keyPath? : Nat → List Char → Option (List String × List Char)
  | 0, _ => none
  | fuel + 1, text => do
    let (key, rest) ← key? (blanks text)
    match blanks rest with
    | '.' :: rest => do
      let (path, rest) ← keyPath? fuel rest
      some (key :: path, rest)
    | rest => some ([key], rest)

end BootImage.Toml
