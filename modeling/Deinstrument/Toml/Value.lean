import Deinstrument.Toml.Quoted
import Deinstrument.Toml.Scalar

/-!
# Values of configuration files

A value is a string, a truth value, a number or time, a list of values, or a
table in braces.
-/

namespace Deinstrument.Toml

inductive Value
  | string (text : Text)
  | boolean (value : Bool)
  /-- A number or a time, as it is written. -/
  | scalar (word : Text)
  | array (items : List Value)
  | table (entries : List (List Text × Value))
  deriving Repr

/-! ## Blanks and comments -/

/-- The blanks within a line. -/
def isSpace (character : Char) : Bool :=
  character == ' ' || character == '\t'

/-- A text without the blanks in front of it. -/
def skipSpaces (text : Text) : Text :=
  text.dropWhile isSpace

/-- A text without the blanks, line breaks and comments in front of it;
`comment` tells whether the text starts inside a comment. -/
def skipGap (comment : Bool) : Text → Option Text
  | [] => some []
  | '\n' :: rest => skipGap false rest
  | '\r' :: '\n' :: rest => skipGap false rest
  | first :: rest =>
      if comment then
        if isControl first && first != '\t' then none else skipGap true rest
      else if isSpace first then skipGap false rest
      else if first = '#' then skipGap true rest
      else some (first :: rest)

/-! ## Keys -/

/-- The characters of which keys without quotes consist. -/
def isBare (character : Char) : Bool :=
  isDigit character || ('a' ≤ character && character ≤ 'z') ||
    ('A' ≤ character && character ≤ 'Z') || character == '_' || character == '-'

def readKey : Text → Option (Text × Text)
  | '"' :: rest => decode .basic .plain rest
  | '\'' :: rest => decode .literal .plain rest
  | text =>
      let key := text.takeWhile isBare
      if key.isEmpty then none else some (key, text.dropWhile isBare)

/-- Keys with points in between. -/
def readKeys : Nat → Text → Option (List Text × Text)
  | 0, _ => none
  | fuel + 1, text => do
      let (key, rest) ← readKey text
      match skipSpaces rest with
      | '.' :: more => do
          let (keys, left) ← readKeys fuel (skipSpaces more)
          pure (key :: keys, left)
      | left => pure ([key], left)

/-- A key with an equals sign and a value. -/
def readEntry (value : Text → Option (Value × Text)) (text : Text) :
    Option ((List Text × Value) × Text) := do
  let (keys, rest) ← readKeys (text.length + 1) text
  match rest with
  | '=' :: more => do
      let (found, left) ← value (skipSpaces more)
      pure ((keys, found), left)
  | _ => none

/-! ## Values -/

/-- The characters that end a word. -/
def endsWord (character : Char) : Bool :=
  isSpace character || character == '\n' || character == '\r' || character == ',' ||
    character == ']' || character == '\x7d' || character == '#'

/-- A word at the front of a text. A space belongs to it between a day and the
time of the day. -/
def readWord (text : Text) : Text × Text :=
  let isPart (character : Char) : Bool := !endsWord character
  let word := text.takeWhile isPart
  match text.dropWhile isPart with
  | ' ' :: rest =>
      let time := rest.takeWhile isPart
      if isDate word && (time.head?.map isDigit).getD false then
        (word ++ ' ' :: time, rest.dropWhile isPart)
      else (word, ' ' :: rest)
  | rest => (word, rest)

/-- A truth value, number or time at the front of a text. -/
def readPlain (text : Text) : Option (Value × Text) :=
  let (word, rest) := readWord text
  if word = "true".toList then some (.boolean true, rest)
  else if word = "false".toList then some (.boolean false, rest)
  else if isScalar word then some (.scalar word, rest)
  else none

/-- The items of a list up to its closing bracket. -/
def readItems (value : Text → Option (Value × Text)) : Nat → Text → Option (List Value × Text)
  | 0, _ => none
  | fuel + 1, text => do
      match ← skipGap false text with
      | ']' :: rest => pure ([], rest)
      | start => do
          let (item, rest) ← value start
          match ← skipGap false rest with
          | ',' :: more => do
              let (items, left) ← readItems value fuel more
              pure (item :: items, left)
          | ']' :: left => pure ([item], left)
          | _ => none

/-- The entries of a table in braces up to the closing brace. -/
def readEntries (value : Text → Option (Value × Text)) :
    Nat → Text → Option (List (List Text × Value) × Text)
  | 0, _ => none
  | fuel + 1, text => do
      let (entry, rest) ← readEntry value (skipSpaces text)
      match skipSpaces rest with
      | ',' :: more => do
          let (entries, left) ← readEntries value fuel more
          pure (entry :: entries, left)
      | '\x7d' :: left => pure ([entry], left)
      | _ => none

/-- Whether the keys of one entry start with those of another. -/
def overlaps (keys other : List Text) : Bool :=
  keys.isPrefixOf other || other.isPrefixOf keys

/-- Whether no entry of a table in braces is given twice or inside another. -/
def areApart : List (List Text × Value) → Bool
  | [] => true
  | (keys, _) :: rest => !(rest.any fun entry => overlaps keys entry.1) && areApart rest

/-- A value at the front of a text; lists and tables are nested less than
`depth` times. -/
def readValue : Nat → Text → Option (Value × Text)
  | 0, _ => none
  | depth + 1, text =>
      match text with
      | '"' :: _ => (readQuoted text).map fun (string, rest) => (.string string, rest)
      | '\'' :: _ => (readQuoted text).map fun (string, rest) => (.string string, rest)
      | '[' :: rest =>
          (readItems (readValue depth) (rest.length + 1) rest).map fun (items, left) =>
            (.array items, left)
      | '\x7b' :: rest =>
          match skipSpaces rest with
          | '\x7d' :: left => some (.table [], left)
          | inner => do
              let (entries, left) ← readEntries (readValue depth) (inner.length + 1) inner
              if areApart entries then pure (.table entries, left) else none
      | _ => readPlain text

/-! ## Writing -/

def writeBoolean (value : Bool) : Text :=
  (if value then "true" else "false").toList

/-- A list of strings: two or more stand on lines of their own. -/
def writeStrings : List Text → Text
  | [] => ['[', ']']
  | [string] => '[' :: writeQuoted string ++ [']']
  | strings =>
      "[\n".toList ++
        strings.flatMap (fun string => "    ".toList ++ writeQuoted string ++ ",\n".toList) ++
        [']']

end Deinstrument.Toml
