import Deinstrument.Text

/-!
# Numbers and times of configuration files

No setting takes a number or a time, so a reader only has to know which words
are well formed.
-/

namespace Deinstrument.Toml

def isDigit (character : Char) : Bool :=
  '0' ≤ character && character ≤ '9'

/-- Digits among which single underscores may stand. -/
def isGrouped (digit : Char → Bool) (word : Text) : Bool :=
  (Text.splitOn '_' word).all fun group => !group.isEmpty && group.all digit

/-- A word without the sign in front of it. -/
def dropSign : Text → Text
  | '+' :: rest => rest
  | '-' :: rest => rest
  | word => word

/-- A decimal whole number without sign; only zero itself starts with zero. -/
def isWhole (word : Text) : Bool :=
  isGrouped isDigit word && (word.head? != some '0' || word.length == 1)

def wholeValue (word : Text) : Nat :=
  (word.filter isDigit).foldl (fun value digit => 10 * value + (digit.toNat - 48)) 0

/-- The greatest distance from zero of a whole number. -/
def wholeLimit (word : Text) : Nat :=
  if word.head? == some '-' then 1 <<< 63 else (1 <<< 63) - 1

/-- The digits of a base. -/
def isDigitOf (base : Nat) (character : Char) : Bool :=
  if base ≤ 10 then '0' ≤ character && character.toNat < 48 + base
  else isDigit character || ('a' ≤ character && character ≤ 'f') ||
    ('A' ≤ character && character ≤ 'F')

/-- A whole number of 64 bits. -/
def isInteger : Text → Bool
  | '0' :: 'x' :: digits => isGrouped (isDigitOf 16) digits
  | '0' :: 'o' :: digits => isGrouped (isDigitOf 8) digits
  | '0' :: 'b' :: digits => isGrouped (isDigitOf 2) digits
  | word =>
      isWhole (dropSign word) && decide (wholeValue (dropSign word) ≤ wholeLimit word)

/-- A number with a fraction, an exponent or both, or one of the names for what
is no finite number. -/
def isFloat (word : Text) : Bool :=
  let plain := dropSign word
  if plain = "inf".toList || plain = "nan".toList then true
  else
    let isMark (character : Char) : Bool := character == 'e' || character == 'E'
    let mantissa := plain.takeWhile fun character => !isMark character
    let exponent := plain.dropWhile fun character => !isMark character
    let whole := mantissa.takeWhile (· != '.')
    let fraction := mantissa.dropWhile (· != '.')
    isWhole whole && !(fraction.isEmpty && exponent.isEmpty) &&
      (fraction.isEmpty || isGrouped isDigit (fraction.drop 1)) &&
      (exponent.isEmpty || isGrouped isDigit (dropSign (exponent.drop 1)))

/-! ## Times -/

/-- A number of a fixed count of digits and within bounds. -/
def isField (count low high : Nat) (word : Text) : Bool :=
  word.length == count && word.all isDigit && decide (low ≤ wholeValue word) &&
    decide (wholeValue word ≤ high)

def isLeap (year : Nat) : Bool :=
  year % 4 == 0 && (year % 100 != 0 || year % 400 == 0)

def daysIn (year month : Nat) : Nat :=
  if month = 2 then if isLeap year then 29 else 28
  else if [4, 6, 9, 11].contains month then 30
  else 31

def isDate (word : Text) : Bool :=
  match Text.splitOn '-' word with
  | [year, month, day] =>
      isField 4 0 9999 year && isField 2 1 12 month &&
        isField 2 1 (daysIn (wholeValue year) (wholeValue month)) day
  | _ => false

def isTime (word : Text) : Bool :=
  let clock := word.takeWhile (· != '.')
  let fraction := word.dropWhile (· != '.')
  (match Text.splitOn ':' clock with
    | [hour, minute, second] =>
        isField 2 0 23 hour && isField 2 0 59 minute && isField 2 0 60 second
    | _ => false) &&
    (fraction.isEmpty || (decide (2 ≤ fraction.length) && (fraction.drop 1).all isDigit))

/-- A distance in time from the zero meridian. -/
def isOffset : Text → Bool
  | ['Z'] => true
  | ['z'] => true
  | sign :: rest =>
      (sign == '+' || sign == '-') &&
        match Text.splitOn ':' rest with
        | [hour, minute] => isField 2 0 23 hour && isField 2 0 59 minute
        | _ => false
  | [] => false

/-- A time of the day that may have an offset. -/
def isZonedTime (word : Text) : Bool :=
  let inTime (character : Char) : Bool :=
    isDigit character || character == ':' || character == '.'
  isTime (word.takeWhile inTime) &&
    ((word.dropWhile inTime).isEmpty || isOffset (word.dropWhile inTime))

/-- A day, a time of the day, or both with a letter or a space in between. -/
def isMoment (word : Text) : Bool :=
  isDate word || isTime word ||
    (isDate (word.take 10) &&
      match word.drop 10 with
      | divider :: rest => [' ', 'T', 't'].contains divider && isZonedTime rest
      | [] => false)

/-- The words for numbers and times. -/
def isScalar (word : Text) : Bool :=
  isInteger word || isFloat word || isMoment word

end Deinstrument.Toml
