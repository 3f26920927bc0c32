/-!
# TOML strings

TOML writes a string in one of four ways: between double quotes, with
escapes, or between single quotes, as it is, and each on one line or on
several.  The writer takes the first way that shows the text unchanged, and
escapes only when there is none.
-/

namespace DeferredTyping.Toml

/-- A blank within a line. -/
def isBlank (c : Char) : Bool := c == ' ' || c == '\t'

/-- A character that may stand in a comment or string as it is: no control
character but the tab. -/
def isPlain (c : Char) : Bool := c == '\t' || (' ' ≤ c && c != '\x7f')

/-- The value of a hexadecimal digit. -/
def hexValue? (c : Char) : Option Nat :=
  if '0' ≤ c && c ≤ '9' then some (c.toNat - '0'.toNat)
  else if 'a' ≤ c && c ≤ 'f' then some (c.toNat - 'a'.toNat + 10)
  else if 'A' ≤ c && c ≤ 'F' then some (c.toNat - 'A'.toNat + 10)
  else none

/-- The character with this code in hexadecimal digits.  Codes of surrogates
and codes beyond the last character are none. -/
def codePoint? (digits : List Char) : Option Char := do
  let values ← digits.mapM hexValue?
  let code := values.foldl (fun code value => 16 * code + value) 0
  if code.isValidChar then return Char.ofNat code else none

/-- The character that a one-letter escape stands for. -/
def shortEscape? : Char → Option Char
  | 'b' => some '\x08'
  | 't' => some '\t'
  | 'n' => some '\n'
  | 'f' => some '\x0c'
  | 'r' => some '\r'
  | 'e' => some '\x1b'
  | '"' => some '"'
  | '\\' => some '\\'
  | _ => none

/-- Puts a character in front of what was read. -/
def cons? (c : Option Char) (read : Option (List Char × List Char)) :
    Option (List Char × List Char) := do
  let c ← c
  let (text, rest) ← read
  return (c :: text, rest)

/-- Reads a one-line string up to its closing double quote, and returns the
text and what follows. -/
def readBasic : List Char → Option (List Char × List Char)
  | [] => none
  | '"' :: rest => some ([], rest)
  | '\\' :: 'x' :: a :: b :: rest => cons? (codePoint? [a, b]) (readBasic rest)
  | '\\' :: 'u' :: a :: b :: c :: d :: rest =>
      cons? (codePoint? [a, b, c, d]) (readBasic rest)
  | '\\' :: 'U' :: a :: b :: c :: d :: e :: f :: g :: h :: rest =>
      cons? (codePoint? [a, b, c, d, e, f, g, h]) (readBasic rest)
  | '\\' :: c :: rest => cons? (shortEscape? c) (readBasic rest)
  | c :: rest => if isPlain c then cons? (some c) (readBasic rest) else none

/-- Reads a one-line string up to its closing single quote. -/
def readLiteral : List Char → Option (List Char × List Char)
  | [] => none
  | '\'' :: rest => some ([], rest)
  | c :: rest => if isPlain c then cons? (some c) (readLiteral rest) else none

/-- What a backslash at the end of a line does to the characters after
it. -/
inductive Continuation where
  /-- No line is being continued. -/
  | off
  /-- Blanks may follow, then the end of the line has to come. -/
  | beforeLineEnd
  /-- Blanks and ends of lines are dropped. -/
  | afterLineEnd
deriving DecidableEq, Repr

/-- Reads a string of several lines up to its closing double quotes.  One or
two quotes right before the closing three belong to the text. -/
def readMultiline : Continuation → List Char → Option (List Char × List Char)
  | .beforeLineEnd, '\n' :: rest
  | .beforeLineEnd, '\r' :: '\n' :: rest => readMultiline .afterLineEnd rest
  | .beforeLineEnd, c :: rest =>
      if isBlank c then readMultiline .beforeLineEnd rest else none
  | .afterLineEnd, '\n' :: rest
  | .afterLineEnd, '\r' :: '\n' :: rest
  | .afterLineEnd, ' ' :: rest
  | .afterLineEnd, '\t' :: rest => readMultiline .afterLineEnd rest
  | _, [] => none
  | _, '"' :: '"' :: '"' :: '"' :: '"' :: rest => some (['"', '"'], rest)
  | _, '"' :: '"' :: '"' :: '"' :: rest => some (['"'], rest)
  | _, '"' :: '"' :: '"' :: rest => some ([], rest)
  | _, '\\' :: 'x' :: a :: b :: rest =>
      cons? (codePoint? [a, b]) (readMultiline .off rest)
  | _, '\\' :: 'u' :: a :: b :: c :: d :: rest =>
      cons? (codePoint? [a, b, c, d]) (readMultiline .off rest)
  | _, '\\' :: 'U' :: a :: b :: c :: d :: e :: f :: g :: h :: rest =>
      cons? (codePoint? [a, b, c, d, e, f, g, h]) (readMultiline .off rest)
  | _, '\\' :: '\n' :: rest
  | _, '\\' :: '\r' :: '\n' :: rest => readMultiline .afterLineEnd rest
  | _, '\\' :: c :: rest =>
      if isBlank c then readMultiline .beforeLineEnd rest
      else cons? (shortEscape? c) (readMultiline .off rest)
  | _, '\n' :: rest => cons? (some '\n') (readMultiline .off rest)
  | _, '\r' :: '\n' :: rest =>
      cons? (some '\r') (cons? (some '\n') (readMultiline .off rest))
  | _, c :: rest => if isPlain c then cons? (some c) (readMultiline .off rest) else none

/-- Reads a string of several lines up to its closing single quotes. -/
def readMultilineLiteral : List Char → Option (List Char × List Char)
  | [] => none
  | '\'' :: '\'' :: '\'' :: '\'' :: '\'' :: rest => some (['\'', '\''], rest)
  | '\'' :: '\'' :: '\'' :: '\'' :: rest => some (['\''], rest)
  | '\'' :: '\'' :: '\'' :: rest => some ([], rest)
  | '\n' :: rest => cons? (some '\n') (readMultilineLiteral rest)
  | '\r' :: '\n' :: rest =>
      cons? (some '\r') (cons? (some '\n') (readMultilineLiteral rest))
  | c :: rest =>
      if isPlain c then cons? (some c) (readMultilineLiteral rest) else none

/-- Drops the end of a line that comes first: right after the opening quotes
of a string of several lines it is no part of the text. -/
def dropLineEnd : List Char → List Char
  | '\n' :: rest => rest
  | '\r' :: '\n' :: rest => rest
  | text => text

/-- Reads a string written in any of the four ways. -/
def readString? : List Char → Option (List Char × List Char)
  | '"' :: '"' :: '"' :: rest => readMultiline .off (dropLineEnd rest)
  | '"' :: rest => readBasic rest
  | '\'' :: '\'' :: '\'' :: rest => readMultilineLiteral (dropLineEnd rest)
  | '\'' :: rest => readLiteral rest
  | _ => none

/-- What decides how a text is written. -/
structure TextTraits where
  /-- A control character other than tab and line feed. -/
  controls : Bool
  backslash : Bool
  lineFeed : Bool
  /-- The length of the longest run of double quotes. -/
  doubleRun : Nat
  /-- The length of the longest run of single quotes. -/
  singleRun : Nat
deriving DecidableEq, Repr

/-- The length of the longest run of a character, when `current` of them
stand right before the text. -/
def longestRun (wanted : Char) (current : Nat) : List Char → Nat
  | [] => current
  | c :: rest =>
      if c = wanted then longestRun wanted (current + 1) rest
      else max current (longestRun wanted 0 rest)

def TextTraits.of (text : List Char) : TextTraits where
  controls := text.any fun c => !isPlain c && c != '\n'
  backslash := text.contains '\\'
  lineFeed := text.contains '\n'
  doubleRun := longestRun '"' 0 text
  singleRun := longestRun '\'' 0 text

/-- The hexadecimal digit of a number below sixteen. -/
def upperHexDigit (value : Nat) : Char :=
  if value < 10 then Char.ofNat ('0'.toNat + value)
  else Char.ofNat ('A'.toNat + (value - 10))

/-- The escape of a character that cannot stand in a string as it is.  All of
these have codes below 256. -/
def escape (c : Char) : List Char :=
  match c with
  | '\x08' => ['\\', 'b']
  | '\t' => ['\\', 't']
  | '\n' => ['\\', 'n']
  | '\x0c' => ['\\', 'f']
  | '\r' => ['\\', 'r']
  | '"' => ['\\', '"']
  | '\\' => ['\\', '\\']
  | c => ['\\', 'u', '0', '0', upperHexDigit (c.toNat / 16), upperHexDigit (c.toNat % 16)]

/-- The text of a one-line string with escapes. -/
def escapeLine (text : List Char) : List Char :=
  text.flatMap fun c =>
    if c == '\t' || c == '"' || c == '\\' || !isPlain c then escape c else [c]

/-- The text of a string of several lines with escapes.  Ends of lines stay,
and of three double quotes in a row the third is escaped; `run` counts the
quotes right before. -/
def escapeLines (run : Nat) : List Char → List Char
  | [] => []
  | '\n' :: rest => '\n' :: escapeLines 0 rest
  | '"' :: rest =>
      if run < 2 then '"' :: escapeLines (run + 1) rest
      else escape '"' ++ escapeLines 0 rest
  | c :: rest =>
      (if c == '\t' || c == '\\' || !isPlain c then escape c else [c])
        ++ escapeLines 0 rest

/-- A text of several lines between three quotes on each side.  It starts on
a line of its own when it has several lines. -/
def multiline (quote : Char) (lineFeed : Bool) (content : List Char) : List Char :=
  let quotes := [quote, quote, quote]
  quotes ++ (if lineFeed then ['\n'] else []) ++ content ++ quotes

/-- Writes a string. -/
def writeString (text : List Char) : List Char :=
  let traits := TextTraits.of text
  if !traits.controls && !traits.backslash && traits.doubleRun == 0
      && !traits.lineFeed then
    '"' :: escapeLine text ++ ['"']
  else if !traits.controls && traits.singleRun == 0 && !traits.lineFeed then
    '\'' :: text ++ ['\'']
  else if !traits.controls && !traits.backslash && traits.doubleRun ≤ 2 then
    multiline '"' traits.lineFeed (escapeLines 0 text)
  else if !traits.controls && traits.singleRun ≤ 2 then
    multiline '\'' traits.lineFeed text
  else if traits.lineFeed then
    multiline '"' true (escapeLines 0 text)
  else
    '"' :: escapeLine text ++ ['"']

end DeferredTyping.Toml
