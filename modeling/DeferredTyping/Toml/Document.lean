import DeferredTyping.Toml.Quoted
import DeferredTyping.Toml.Scalar

/-!
# TOML documents

A document is a list of statements: a header that opens a table, a header
that opens an element of an array of tables, or a key with its value.  The
text is read into statements first, and the statements then build the root
table; `parse?` does both.  Keys with too many parts and values nested too
deep are refused, so a document cannot make its readers recurse without
bound.
-/

namespace DeferredTyping.Toml

/-- A character of a key that needs no quotes. -/
def isKeyChar (c : Char) : Bool :=
  c.isAlphanum || c == '_' || c == '-'

/-- Drops blanks. -/
def dropBlanks (text : List Char) : List Char := text.dropWhile isBlank

/-- Drops blanks, comments and ends of lines.  A comment holds plain
characters only. -/
def dropLines : (inComment : Bool) → List Char → Option (List Char)
  | _, [] => some []
  | _, '\n' :: rest => dropLines false rest
  | _, '\r' :: '\n' :: rest => dropLines false rest
  | true, c :: rest => if isPlain c then dropLines true rest else none
  | false, c :: rest =>
      if isBlank c then dropLines false rest
      else if c = '#' then dropLines true rest
      else some (c :: rest)

/-- Drops the rest of a line on which nothing but a comment may follow. -/
def dropRestOfLine : (inComment : Bool) → List Char → Option (List Char)
  | _, [] => some []
  | _, '\n' :: rest => some rest
  | _, '\r' :: '\n' :: rest => some rest
  | true, c :: rest => if isPlain c then dropRestOfLine true rest else none
  | false, c :: rest =>
      if isBlank c then dropRestOfLine false rest
      else if c = '#' then dropRestOfLine true rest
      else none

/-- Reads one part of a key. -/
def readKeyPart? : List Char → Option (String × List Char)
  | '"' :: '"' :: '"' :: _ => none
  | '\'' :: '\'' :: '\'' :: _ => none
  | '"' :: rest => (readBasic rest).map fun (key, rest) => (String.ofList key, rest)
  | '\'' :: rest => (readLiteral rest).map fun (key, rest) => (String.ofList key, rest)
  | text =>
      match text.takeWhile isKeyChar with
      | [] => none
      | key => some (String.ofList key, text.dropWhile isKeyChar)

/-- Reads the parts of a key that points separate, when there are at most so
many. -/
def readParts? : Nat → List Char → Option (List String × List Char)
  | 0, _ => none
  | limit + 1, text => do
      let (part, rest) ← readKeyPart? text
      match dropBlanks rest with
      | '.' :: rest =>
          let (parts, rest) ← readParts? limit (dropBlanks rest)
          return (part :: parts, rest)
      | rest => return ([part], rest)

/-- How many parts a key may have, and how deep arrays and inline tables may
stand in one another. -/
def nestingLimit : Nat := 80

/-- Reads a key. -/
def readKey? (text : List Char) : Option (List String × List Char) :=
  readParts? nestingLimit text

/-- A character that ends an unquoted scalar. -/
def endsScalar (c : Char) : Bool :=
  isBlank c || c == '\n' || c == '\r' || c == ',' || c == ']' || c == '}'
    || c == '#' || c == '='

/-- The text of an unquoted scalar, and what follows.  A date and a time may
be apart by one space. -/
def splitScalar (text : List Char) : List Char × List Char :=
  let token := text.takeWhile fun c => !endsScalar c
  let rest := text.dropWhile fun c => !endsScalar c
  match readDate? token, rest with
  | some [], ' ' :: digit :: _ =>
      if digit.isDigit then
        let rest := rest.drop 1
        (token ++ ' ' :: rest.takeWhile (fun c => !endsScalar c),
          rest.dropWhile fun c => !endsScalar c)
      else (token, rest)
  | _, _ => (token, rest)

mutual

/-- Reads a value that holds arrays and inline tables of at most the given
depth.  The fuel bounds how many values are read for one another. -/
def readValue? : (fuel depth : Nat) → List Char → Option (Value × List Char)
  | 0, _, _ => none
  | fuel + 1, depth, text =>
      match text, depth with
      | '[' :: _, 0 => none
      | '{' :: _, 0 => none
      | '[' :: rest, depth + 1 =>
          (readItems? fuel depth rest).map fun (items, rest) => (.array items, rest)
      | '{' :: rest, depth + 1 =>
          (readPairs? fuel depth [] rest).map
            fun (entries, rest) => (.table .inline entries, rest)
      | '"' :: _, _ | '\'' :: _, _ =>
          (readString? text).map
            fun (content, rest) => (.string (String.ofList content), rest)
      | _, _ => do
          let (token, rest) := splitScalar text
          return (← scalar? token, rest)

/-- Reads the items of an array up to its closing bracket.  Ends of lines and
comments may stand between any two of them, and a comma may follow the
last. -/
def readItems? : (fuel depth : Nat) → List Char → Option (List Value × List Char)
  | 0, _, _ => none
  | fuel + 1, depth, text => do
      match ← dropLines false text with
      | ']' :: rest => return ([], rest)
      | text =>
          let (item, rest) ← readValue? fuel depth text
          match ← dropLines false rest with
          | ',' :: rest =>
              let (items, rest) ← readItems? fuel depth rest
              return (item :: items, rest)
          | ']' :: rest => return ([item], rest)
          | _ => none

/-- Reads the pairs of an inline table up to its closing brace.  Ends of
lines and comments may stand anywhere but within a key, and a comma may
follow the last pair. -/
def readPairs? :
    (fuel depth : Nat) → Entries → List Char → Option (Entries × List Char)
  | 0, _, _, _ => none
  | fuel + 1, depth, entries, text => do
      match ← dropLines false text with
      | '}' :: rest => return (entries, rest)
      | text =>
          let (key, rest) ← readKey? text
          match ← dropLines false rest with
          | '=' :: rest =>
              let (value, rest) ← readValue? fuel depth (← dropLines false rest)
              let entries ←
                Entries.defineDotted key.dropLast (key.getLast?.getD "") value entries
              match ← dropLines false rest with
              | ',' :: rest => readPairs? fuel depth entries rest
              | '}' :: rest => return (entries, rest)
              | _ => none
          | _ => none

end

/-- A statement of a document. -/
inductive Statement where
  /-- The header of a table. -/
  | table (path : List String)
  /-- The header of an element of an array of tables. -/
  | element (path : List String)
  | pair (key : List String) (value : Value)

/-- Reads a header up to its closing brackets. -/
def readHeader? (isElement : Bool) (text : List Char) :
    Option (Statement × List Char) := do
  let (path, rest) ← readKey? (dropBlanks text)
  match isElement, dropBlanks rest with
  | true, ']' :: ']' :: rest => return (.element path, rest)
  | false, ']' :: rest => return (.table path, rest)
  | _, _ => none

/-- Reads a statement; the text starts with no blank. -/
def readStatement? (fuel : Nat) : List Char → Option (Statement × List Char)
  | '[' :: '[' :: rest => readHeader? true rest
  | '[' :: rest => readHeader? false rest
  | text => do
      let (key, rest) ← readKey? text
      match dropBlanks rest with
      | '=' :: rest =>
          let (value, rest) ← readValue? fuel nestingLimit (dropBlanks rest)
          return (.pair key value, rest)
      | _ => none

/-- Reads statements, one on a line, up to the end of the text. -/
def readStatements? : Nat → List Char → Option (List Statement)
  | 0, _ => none
  | fuel + 1, text => do
      match ← dropLines false text with
      | [] => return []
      | text =>
          let (statement, rest) ← readStatement? (2 * text.length + 2) text
          let statements ← readStatements? fuel (← dropRestOfLine false rest)
          return statement :: statements

/-- The root table under construction, and the path of the table that pairs
go to. -/
structure DocumentState where
  root : Entries := []
  current : List String := []

/-- What a statement does to the document. -/
def DocumentState.apply (state : DocumentState) :
    Statement → Option DocumentState
  | .table path => do
      let root ← Entries.descend path.dropLast
        (Entries.openTable (path.getLast?.getD "")) state.root
      return { root, current := path }
  | .element path => do
      let root ← Entries.descend path.dropLast
        (Entries.openElement (path.getLast?.getD "")) state.root
      return { root, current := path }
  | .pair key value => do
      let root ← Entries.descend state.current
        (Entries.defineDotted key.dropLast (key.getLast?.getD "") value) state.root
      return { state with root }

/-- Drops a byte order mark. -/
def dropMark : List Char → List Char
  | '\ufeff' :: rest => rest
  | text => text

/-- The root table of a document. -/
def parse? (text : String) : Option Entries := do
  let chars := dropMark text.toList
  let statements ← readStatements? (chars.length + 1) chars
  let state ← statements.foldlM DocumentState.apply {}
  return state.root

end DeferredTyping.Toml
