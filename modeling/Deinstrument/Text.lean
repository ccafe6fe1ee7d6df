/-!
# Text

Source text is a list of characters, so that cutting and joining it are the
operations of lists. This module holds the character class of blanks and the
cuts that every later module shares.
-/

namespace Deinstrument

/-- A piece of source text. -/
abbrev Text := List Char

namespace Text

/-- The characters with the property White_Space. -/
def isBlank (character : Char) : Bool :=
  let code := character.toNat
  (9 ≤ code && code ≤ 13) || code == 0x20 || code == 0x85 || code == 0xA0 ||
    code == 0x1680 || (0x2000 ≤ code && code ≤ 0x200A) || code == 0x2028 ||
    code == 0x2029 || code == 0x202F || code == 0x205F || code == 0x3000

def trimStart (text : Text) : Text :=
  text.dropWhile isBlank

def trimEnd (text : Text) : Text :=
  (text.reverse.dropWhile isBlank).reverse

def trim (text : Text) : Text :=
  trimEnd (trimStart text)

/-- Whether `start` stands at the front of the text. -/
def startsWith (text start : Text) : Bool :=
  start.isPrefixOf text

def breaks (text : Text) : Nat :=
  text.count '\n'

/-- The pieces between the occurrences of a separating character; there is
always one more piece than there are separators. -/
def splitOn (separator : Char) : Text → List Text
  | [] => [[]]
  | first :: rest =>
      if first == separator then [] :: splitOn separator rest
      else
        match splitOn separator rest with
        | [] => [[first]]
        | piece :: pieces => (first :: piece) :: pieces

/-- A line without the carriage return that may end it. -/
def dropReturn (line : Text) : Text :=
  if line.getLast? == some '\r' then line.dropLast else line

/-- The lines of a text: a final line feed opens no further line, and a
carriage return in front of a line feed belongs to the line break. -/
def lines (text : Text) : List Text :=
  let pieces := splitOn '\n' text
  match pieces.getLast? with
  | some [] => pieces.dropLast.map dropReturn
  | some last => pieces.dropLast.map dropReturn ++ [last]
  | none => []

/-- Texts joined with a separator between neighbours. -/
def join (separator : Text) : List Text → Text
  | [] => []
  | [text] => text
  | text :: rest => text ++ separator ++ join separator rest

/-- The first position at which `pattern` stands in the text. -/
def find? (pattern : Text) : Text → Option Nat
  | [] => if pattern.isEmpty then some 0 else none
  | first :: rest =>
      if pattern.isPrefixOf (first :: rest) then some 0
      else (find? pattern rest).map (· + 1)

/-- The decimal numeral of a number. -/
def ofNat (number : Nat) : Text :=
  Nat.toDigits 10 number

@[simp]
theorem trimStart_nil : trimStart [] = [] := rfl

theorem splitOn_ne_nil (separator : Char) (text : Text) : splitOn separator text ≠ [] := by
  cases text with
  | nil => simp [splitOn]
  | cons first rest =>
      unfold splitOn
      split
      · simp
      · split <;> simp

end Text

end Deinstrument
