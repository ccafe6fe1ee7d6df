import Deinstrument.Text

/-!
# Values for other programs

Results for other programs are written as indented JSON.
-/

namespace Deinstrument

/-- The values that results consist of. -/
inductive JsonValue
  | boolean (value : Bool)
  | number (value : Nat)
  | string (text : Text)
  | array (items : List JsonValue)
  | object (fields : List (Text × JsonValue))
  deriving Repr

namespace JsonValue

def hexDigit (digit : Nat) : Char :=
  if digit < 10 then Char.ofNat (48 + digit) else Char.ofNat (87 + digit)

/-- A character inside a string. -/
def escape (character : Char) : Text :=
  if character = '"' then ['\\', '"']
  else if character = '\\' then ['\\', '\\']
  else if character = '\x08' then ['\\', 'b']
  else if character = '\x0c' then ['\\', 'f']
  else if character = '\n' then ['\\', 'n']
  else if character = '\r' then ['\\', 'r']
  else if character = '\t' then ['\\', 't']
  else if character.toNat < 0x20 then
    ['\\', 'u', '0', '0', hexDigit (character.toNat / 16), hexDigit (character.toNat % 16)]
  else [character]

def quote (text : Text) : Text :=
  '"' :: text.flatMap escape ++ ['"']

/-- A line break with the indentation of the line behind it. -/
def newLine (depth : Nat) : Text :=
  '\n' :: List.replicate (2 * depth) ' '

mutual

/-- A value whose first line is indented `depth` times. -/
def print (depth : Nat) : JsonValue → Text
  | .boolean value => (if value then "true" else "false").toList
  | .number value => Text.ofNat value
  | .string text => quote text
  | .array [] => ['[', ']']
  | .array (item :: items) =>
      '[' :: newLine (depth + 1) ++ print (depth + 1) item ++ printItems (depth + 1) items ++
        newLine depth ++ [']']
  | .object [] => ['\x7b', '\x7d']
  | .object (field :: fields) =>
      '\x7b' :: newLine (depth + 1) ++ printField (depth + 1) field ++
        printFields (depth + 1) fields ++ newLine depth ++ ['\x7d']

def printItems (depth : Nat) : List JsonValue → Text
  | [] => []
  | item :: items => ',' :: newLine depth ++ print depth item ++ printItems depth items

def printField (depth : Nat) : Text × JsonValue → Text
  | (name, value) => quote name ++ [':', ' '] ++ print depth value

def printFields (depth : Nat) : List (Text × JsonValue) → Text
  | [] => []
  | field :: fields =>
      ',' :: newLine depth ++ printField depth field ++ printFields depth fields

end

end JsonValue

end Deinstrument
