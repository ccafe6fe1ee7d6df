import Deinstrument.Text

/-!
# Quoted strings of configuration files

A string stands between quotes in one of four ways. Basic strings know escapes
and literal ones do not; the long form of each, between three quotes, may span
lines. Writing takes the first way in which the string is easiest to read.
Reading runs one automaton, so that a string is read character by character
whatever its quotes are.
-/

namespace Deinstrument.Toml

/-- The ways to quote a string. -/
inductive Quote
  | basic
  | literal
  | longBasic
  | longLiteral
  deriving DecidableEq, Repr

namespace Quote

/-- The character of which the quotes consist. -/
def mark : Quote → Char
  | .basic | .longBasic => '"'
  | .literal | .longLiteral => '\''

/-- Whether three marks stand on either side, and lines may end in between. -/
def isLong : Quote → Bool
  | .longBasic | .longLiteral => true
  | .basic | .literal => false

/-- Whether a backslash starts an escape. -/
def escapes : Quote → Bool
  | .basic | .longBasic => true
  | .literal | .longLiteral => false

/-- The quotes on either side. -/
def delimiter (quote : Quote) : Text :=
  if quote.isLong then [quote.mark, quote.mark, quote.mark] else [quote.mark]

end Quote

def isControl (character : Char) : Bool :=
  character.toNat < 0x20 || character.toNat == 0x7F

/-- The control characters that a string never holds as they are. -/
def needsCode (character : Char) : Bool :=
  isControl character && character != '\t' && character != '\n'

/-! ## Writing -/

/-- The length of the longest run of a character; `run` of them stand directly
in front of the text. -/
def longestRun (mark : Char) (run : Nat) : Text → Nat
  | [] => run
  | first :: rest =>
      if first = mark then longestRun mark (run + 1) rest
      else max run (longestRun mark 0 rest)

/-- The way in which a string is written: the first that needs no escape except
for tabs, and a basic one if there is none. -/
def quoteFor (text : Text) : Quote :=
  let coded := text.any needsCode
  let slashed := text.contains '\\'
  let broken := text.contains '\n'
  let doubles := longestRun '"' 0 text
  let singles := longestRun '\'' 0 text
  if !coded && !slashed && !broken && doubles == 0 then .basic
  else if !coded && !broken && singles == 0 then .literal
  else if !coded && !slashed && doubles ≤ 2 then .longBasic
  else if !coded && singles ≤ 2 then .longLiteral
  else if broken then .longBasic
  else .basic

def hexDigit (digit : Nat) : Char :=
  if digit < 10 then Char.ofNat (48 + digit) else Char.ofNat (55 + digit)

/-- The escape of a character by its code in four digits. -/
def codeEscape (character : Char) : Text :=
  let code := character.toNat
  ['\\', 'u', hexDigit (code / 4096 % 16), hexDigit (code / 256 % 16),
    hexDigit (code / 16 % 16), hexDigit (code % 16)]

/-- A character other than a quote as it stands in a basic string. -/
def encodeCharacter (quote : Quote) (character : Char) : Text :=
  if character = '\x08' then ['\\', 'b']
  else if character = '\t' then ['\\', 't']
  else if character = '\n' then if quote.isLong then ['\n'] else ['\\', 'n']
  else if character = '\x0c' then ['\\', 'f']
  else if character = '\r' then ['\\', 'r']
  else if character = '\\' then ['\\', '\\']
  else if isControl character then codeEscape character
  else [character]

/-- How many quotes may follow each other in a basic string. -/
def Quote.room (quote : Quote) : Nat :=
  if quote.isLong then 2 else 0

/-- The inside of a basic string; `run` quotes stand directly in front of it. -/
def encode (quote : Quote) (run : Nat) : Text → Text
  | [] => []
  | first :: rest =>
      if first = '"' then
        if run < quote.room then '"' :: encode quote (run + 1) rest
        else '\\' :: '"' :: encode quote 0 rest
      else encodeCharacter quote first ++ encode quote 0 rest

/-- A string between its quotes. A line break directly after long quotes does
not count, so one is put in front of a string of several lines. -/
def writeQuoted (text : Text) : Text :=
  let quote := quoteFor text
  quote.delimiter ++
    (if quote.isLong && text.contains '\n' then ['\n'] else []) ++
    (if quote.escapes then encode quote 0 text else text) ++
    quote.delimiter

/-! ## Reading -/

/-- Where in a string the reader stands. -/
inductive Mode
  | plain
  | escaped
  /-- Inside a code of which `left` digits are missing. -/
  | code (left value : Nat)
  /-- In the blanks that a backslash at the end of a line removes; `broken`
  tells whether the line has ended. -/
  | folded (broken : Bool)
  /-- After `count` marks that may close a long string. -/
  | closing (count : Nat)
  /-- After a carriage return, which only a line feed can follow. -/
  | returned (folding : Bool)
  deriving DecidableEq, Repr

/-- What one character does to the reader. -/
inductive Step
  | refuse
  /-- The string goes on. -/
  | more (read : Text) (next : Mode)
  /-- The string is over; `taken` tells whether the character belongs to it. -/
  | stop (read : Text) (taken : Bool)
  deriving DecidableEq, Repr

def hexValue? (character : Char) : Option Nat :=
  if '0' ≤ character && character ≤ '9' then some (character.toNat - 48)
  else if 'a' ≤ character && character ≤ 'f' then some (character.toNat - 87)
  else if 'A' ≤ character && character ≤ 'F' then some (character.toNat - 55)
  else none

/-- The character that a letter after a backslash stands for. -/
def shortEscape? (character : Char) : Option Char :=
  if character = 'b' then some '\x08'
  else if character = 't' then some '\t'
  else if character = 'n' then some '\n'
  else if character = 'f' then some '\x0c'
  else if character = 'r' then some '\r'
  else if character = '"' then some '"'
  else if character = '\\' then some '\\'
  else none

def plainStep (quote : Quote) (character : Char) : Step :=
  if character = quote.mark then
    if quote.isLong then .more [] (.closing 1) else .stop [] true
  else if character = '\\' && quote.escapes then .more [] .escaped
  else if character = '\n' then if quote.isLong then .more ['\n'] .plain else .refuse
  else if character = '\r' then if quote.isLong then .more [] (.returned false) else .refuse
  else if isControl character && character != '\t' then .refuse
  else .more [character] .plain

/-- A step inside the blanks behind a backslash. -/
def foldedStep (quote : Quote) (broken : Bool) (character : Char) : Step :=
  if character = ' ' || character = '\t' then .more [] (.folded broken)
  else if character = '\n' then .more [] (.folded true)
  else if character = '\r' then .more [] (.returned true)
  else if broken then plainStep quote character
  else .refuse

def escapedStep (quote : Quote) (character : Char) : Step :=
  match shortEscape? character with
  | some meant => .more [meant] .plain
  | none =>
      if character = 'u' then .more [] (.code 4 0)
      else if character = 'U' then .more [] (.code 8 0)
      else if quote.isLong then foldedStep quote false character
      else .refuse

def codeStep (left value : Nat) (character : Char) : Step :=
  match hexValue? character with
  | none => .refuse
  | some digit =>
      let code := 16 * value + digit
      if left = 1 then
        if code.isValidChar then .more [Char.ofNat code] .plain else .refuse
      else .more [] (.code (left - 1) code)

/-- The step with text read in front of it. -/
def Step.after (read : Text) : Step → Step
  | .refuse => .refuse
  | .more later next => .more (read ++ later) next
  | .stop later taken => .stop (read ++ later) taken

/-- A step after marks that may close a long string. Up to two marks in front
of the closing three belong to the string. -/
def closingStep (quote : Quote) (count : Nat) (character : Char) : Step :=
  if character = quote.mark then
    if count = 4 then .stop [quote.mark, quote.mark] true else .more [] (.closing (count + 1))
  else if 3 ≤ count then .stop (List.replicate (count - 3) quote.mark) false
  else (plainStep quote character).after (List.replicate count quote.mark)

def step (quote : Quote) (mode : Mode) (character : Char) : Step :=
  match mode with
  | .plain => plainStep quote character
  | .escaped => escapedStep quote character
  | .code left value => codeStep left value character
  | .folded broken => foldedStep quote broken character
  | .closing count => closingStep quote count character
  | .returned folding =>
      if character = '\n' then
        if folding then .more [] (.folded true) else .more ['\n'] .plain
      else .refuse

/-- The inside of a string and the text behind its quotes. -/
def decode (quote : Quote) (mode : Mode) : Text → Option (Text × Text)
  | [] =>
      match mode with
      | .closing count =>
          if 3 ≤ count then some (List.replicate (count - 3) quote.mark, []) else none
      | _ => none
  | first :: rest =>
      match step quote mode first with
      | .refuse => none
      | .more read next => (decode quote next rest).map fun (later, left) => (read ++ later, left)
      | .stop read taken => some (read, if taken then rest else first :: rest)

/-- A text without a line break in front of it. -/
def dropBreak : Text → Text
  | '\n' :: rest => rest
  | '\r' :: '\n' :: rest => rest
  | text => text

/-- A string at the front of a text, and the text behind it. -/
def readQuoted : Text → Option (Text × Text)
  | '"' :: '"' :: '"' :: rest => decode .longBasic .plain (dropBreak rest)
  | '"' :: rest => decode .basic .plain rest
  | '\'' :: '\'' :: '\'' :: rest => decode .longLiteral .plain (dropBreak rest)
  | '\'' :: rest => decode .literal .plain rest
  | _ => none

end Deinstrument.Toml
