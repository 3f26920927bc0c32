import DeferredTyping.Toml.Value

/-!
# TOML scalars without quotes

Booleans, integers in four bases, decimal fractions, and dates and times.
An unquoted scalar is read as a whole: its text has to have exactly one of
these forms.  Its size is no matter here: a number that is too large is read
and marked as one that does not fit.
-/

namespace DeferredTyping.Toml

/-- The digits of a number in which single underscores may stand between
digits. -/
def ungroup (isDigit : Char → Bool) : List Char → Option (List Char)
  | [] => none
  | [c] => if isDigit c then some [c] else none
  | c :: '_' :: rest =>
      if isDigit c then (ungroup isDigit rest).map (c :: ·) else none
  | c :: rest => if isDigit c then (ungroup isDigit rest).map (c :: ·) else none

/-- The value of a digit in any base up to sixteen. -/
def digitValue (c : Char) : Nat :=
  if c.isDigit then c.toNat - '0'.toNat
  else if 'a' ≤ c then c.toNat - 'a'.toNat + 10
  else c.toNat - 'A'.toNat + 10

/-- A number in some base from its digits. -/
def ofDigits (base : Nat) (digits : List Char) : Nat :=
  digits.foldl (fun value digit => base * value + digitValue digit) 0

def isHexDigit (c : Char) : Bool :=
  c.isDigit || ('a' ≤ c && c ≤ 'f') || ('A' ≤ c && c ≤ 'F')

/-- Takes a sign off a number; true stands for minus. -/
def splitSign : List Char → Bool × List Char
  | '-' :: rest => (true, rest)
  | '+' :: rest => (false, rest)
  | text => (false, text)

/-- The digits of a decimal number.  Only zero itself starts with a zero. -/
def decimalDigits? (text : List Char) : Option (List Char) :=
  match ungroup Char.isDigit text with
  | some ('0' :: _ :: _) => none
  | digits => digits

/-- The number that an unsigned integer text with a base prefix, or a decimal
text with a sign, stands for. -/
def integer? : List Char → Option Int
  | '0' :: 'x' :: digits =>
      (ungroup isHexDigit digits).map fun digits => (ofDigits 16 digits : Int)
  | '0' :: 'o' :: digits =>
      (ungroup (fun c => '0' ≤ c && c ≤ '7') digits).map
        fun digits => (ofDigits 8 digits : Int)
  | '0' :: 'b' :: digits =>
      (ungroup (fun c => c == '0' || c == '1') digits).map
        fun digits => (ofDigits 2 digits : Int)
  | text =>
      let (isNegative, digits) := splitSign text
      (decimalDigits? digits).map fun digits =>
        let number : Int := Nat.ofDigitChars 10 digits 0
        if isNegative then -number else number

/-- The magnitude `digits * 10 ^ exponent` is too large for a double: it
rounds to more than the largest one.  Only magnitudes of about 309 digits
need a look at the digits. -/
def overflowsDouble (digits : Nat) (exponent : Int) : Bool :=
  if digits = 0 then false
  else
    let length : Int := (Nat.toDigits 10 digits).length
    let limit : Nat := Nat.pow 2 1024 - Nat.pow 2 970
    if 310 < length + exponent then true
    else if length + exponent < 309 then false
    else
      decide (limit * Nat.pow 10 (-exponent).toNat ≤ digits * Nat.pow 10 exponent.toNat)

/-- The exponent of a decimal fraction; leading zeros are fine here. -/
def exponent? (text : List Char) : Option Int :=
  let (isNegative, digits) := splitSign text
  (ungroup Char.isDigit digits).map fun digits =>
    let number : Int := Nat.ofDigitChars 10 digits 0
    if isNegative then -number else number

/-- Splits a text at the first accepted character, which is dropped. -/
def splitAtFirst (accepts : Char → Bool) (text : List Char) :
    List Char × Option (List Char) :=
  match text.dropWhile fun c => !accepts c with
  | [] => (text, none)
  | _ :: rest => (text.takeWhile fun c => !accepts c, some rest)

/-- Reads a decimal fraction, an infinity or what is no number, and tells
whether a double can hold it.  A fraction has a point with digits on both
sides, an exponent, or both. -/
def float? (text : List Char) : Option Bool :=
  let (_, unsigned) := splitSign text
  if unsigned == ['i', 'n', 'f'] || unsigned == ['n', 'a', 'n'] then some true
  else
    let (mantissa, exponentText) := splitAtFirst (fun c => c == 'e' || c == 'E') unsigned
    let (wholeText, fractionText) := splitAtFirst (· == '.') mantissa
    if fractionText.isNone && exponentText.isNone then none
    else do
      let whole ← decimalDigits? wholeText
      let fraction ← match fractionText with
        | some fraction => ungroup Char.isDigit fraction
        | none => some []
      let exponent ← match exponentText with
        | some exponent => exponent? exponent
        | none => some 0
      return !overflowsDouble (Nat.ofDigitChars 10 (whole ++ fraction) 0)
        (exponent - fraction.length)

/-- The number that two digits stand for. -/
def twoDigits? (a b : Char) : Option Nat :=
  if a.isDigit && b.isDigit then some (10 * digitValue a + digitValue b) else none

/-- The number of days of a month. -/
def daysInMonth (year month : Nat) : Nat :=
  if month = 2 then
    if (year % 4 = 0 && year % 100 != 0) || year % 400 = 0 then 29 else 28
  else if month = 4 || month = 6 || month = 9 || month = 11 then 30
  else 31

/-- Reads a date, and returns what follows. -/
def readDate? : List Char → Option (List Char)
  | a :: b :: c :: d :: '-' :: e :: f :: '-' :: g :: h :: rest => do
      let year := 100 * (← twoDigits? a b) + (← twoDigits? c d)
      let month ← twoDigits? e f
      let day ← twoDigits? g h
      if 1 ≤ month && month ≤ 12 && 1 ≤ day && day ≤ daysInMonth year month then
        return rest
      else none
  | _ => none

/-- Reads the seconds of a time, which may be left out or have a fraction. -/
def readSeconds? : List Char → Option (List Char)
  | ':' :: a :: b :: rest => do
      if 60 < (← twoDigits? a b) then none
      else
        match rest with
        | '.' :: fraction =>
            match fraction.takeWhile Char.isDigit with
            | [] => none
            | _ => return fraction.dropWhile Char.isDigit
        | rest => return rest
  | ':' :: _ => none
  | rest => some rest

/-- Reads a time of day. -/
def readTime? : List Char → Option (List Char)
  | a :: b :: ':' :: c :: d :: rest => do
      let hour ← twoDigits? a b
      let minute ← twoDigits? c d
      if hour ≤ 23 && minute ≤ 59 then readSeconds? rest else none
  | _ => none

/-- What may follow the time of a date: nothing, or the offset from UTC. -/
def isOffset : List Char → Bool
  | [] => true
  | ['Z'] | ['z'] => true
  | [sign, a, b, ':', c, d] =>
      (sign == '+' || sign == '-') &&
        match twoDigits? a b, twoDigits? c d with
        | some hours, some minutes => hours ≤ 23 && minutes ≤ 59
        | _, _ => false
  | _ => false

/-- The text is a date, a time, or both. -/
def isDateTime (text : List Char) : Bool :=
  match readDate? text with
  | some [] => true
  | some (separator :: time) =>
      (separator == 'T' || separator == 't' || separator == ' ') &&
        match readTime? time with
        | some offset => isOffset offset
        | none => false
  | none => readTime? text == some []

/-- The value that an unquoted scalar stands for. -/
def scalar? (text : List Char) : Option Value :=
  if text == ['t', 'r', 'u', 'e'] then some (.boolean true)
  else if text == ['f', 'a', 'l', 's', 'e'] then some (.boolean false)
  else
    match integer? text with
    | some number => some (.integer number)
    | none =>
        match float? text with
        | some fits => some (.float fits)
        | none => if isDateTime text then some .dateTime else none

end DeferredTyping.Toml
