import Deinstrument.Comment
import Deinstrument.Text.Identifier

/-!
# Lexemes

A lexeme class measures the text it accepts at the front of the source. Only
lengths are returned, so that a reader moves text and never makes any.
-/

namespace Deinstrument.Go

/-- Blanks between tokens are the six ASCII blanks only. -/
def isSpace (character : Char) : Bool :=
  character == ' ' || character == '\t' || character == '\r' || character == '\n' ||
    character == '\x0b' || character == '\x0c'

/-- The length of the blanks and comments in front of a text, at most as many
of them as the clock has characters; the flag says whether line breaks count as
blanks. -/
def blankLengthFrom (breaks : Bool) : (clock text : Text) → Nat
  | [], _ => 0
  | _ :: clock, text =>
      match Comment.closedLength? text with
      | some length => length + blankLengthFrom breaks clock (text.drop length)
      | none =>
          match text with
          | [] => 0
          | first :: rest =>
              if isSpace first && (breaks || first != '\n') then
                1 + blankLengthFrom breaks clock rest
              else 0

/-- The length of the blanks and comments in front of a text. The text itself
is the clock, since each of them takes a character. -/
def blankLength (text : Text) : Nat :=
  blankLengthFrom true text text

/-- The length of the blanks and comments up to the first line break. -/
def inlineLength (text : Text) : Nat :=
  blankLengthFrom false text text

/-- Whether a line break outside comments stands before the next token. -/
def breakAhead (text : Text) : Bool :=
  (text.drop (inlineLength text)).head? == some '\n'

inductive Radix
  | binary
  | octal
  | decimal
  | hexadecimal
  deriving DecidableEq, Repr

def Radix.isDigit (radix : Radix) (character : Char) : Bool :=
  match radix with
  | .binary => character == '0' || character == '1'
  | .octal => '0' ≤ character && character ≤ '7'
  | .decimal => character.isDigit
  | .hexadecimal =>
      character.isDigit || ('a' ≤ character && character ≤ 'f') ||
        ('A' ≤ character && character ≤ 'F')

/-- A measure of the text accepted at the front of the source. -/
abbrev Measure := Text → Option Nat

namespace Measure

def nothing : Measure := fun _ => some 0

/-- Accept one character of a class. -/
def one (accepts : Char → Bool) : Measure
  | first :: _ => if accepts first then some 1 else none
  | [] => none

def char (wanted : Char) : Measure :=
  one (· == wanted)

def both (first second : Measure) : Measure := fun text =>
  match first text with
  | none => none
  | some length => (second (text.drop length)).map (length + ·)

def all (measures : List Measure) : Measure :=
  measures.foldr both nothing

/-- Accept the longest of several measures. -/
def longest (measures : List Measure) : Measure := fun text =>
  measures.foldl (fun best measure =>
    match best, measure text with
    | some length, some other => some (max length other)
    | none, found => found
    | found, none => found) none

def maybe (measure : Measure) : Measure := fun text =>
  some ((measure text).getD 0)

/-- The length of further digits, each with an optional underscore before it. -/
def moreDigits (radix : Radix) : Text → Nat
  | '_' :: digit :: rest => if radix.isDigit digit then 2 + moreDigits radix rest else 0
  | digit :: rest => if radix.isDigit digit then 1 + moreDigits radix rest else 0
  | [] => 0

/-- Digits with single underscores between them. -/
def digits (radix : Radix) : Measure
  | first :: rest => if radix.isDigit first then some (1 + moreDigits radix rest) else none
  | [] => none

/-- A character in lower or upper case. -/
def letter (lower upper : Char) : Measure :=
  one fun character => character == lower || character == upper

/-- Digits behind an optional underscore. -/
def afterMark (radix : Radix) : Measure :=
  both (maybe (char '_')) (digits radix)

def integer : Measure := longest [
  all [char '0', letter 'b' 'B', afterMark .binary],
  char '0',
  both (one fun character => '1' ≤ character && character ≤ '9') (maybe (afterMark .decimal)),
  all [char '0', maybe (letter 'o' 'O'), afterMark .octal],
  all [char '0', letter 'x' 'X', afterMark .hexadecimal]]

/-- A decimal exponent behind one of two letters. -/
def exponent (lower upper : Char) : Measure :=
  all [letter lower upper, maybe (one fun sign => sign == '+' || sign == '-'), digits .decimal]

/-- The digits of a hexadecimal floating-point literal. -/
def hexMantissa : Measure := longest [
  all [afterMark .hexadecimal, char '.', maybe (digits .hexadecimal)],
  afterMark .hexadecimal,
  both (char '.') (digits .hexadecimal)]

def float : Measure := longest [
  all [digits .decimal, char '.', maybe (digits .decimal), maybe (exponent 'e' 'E')],
  all [digits .decimal, exponent 'e' 'E'],
  all [char '.', digits .decimal, maybe (exponent 'e' 'E')],
  all [char '0', letter 'x' 'X', hexMantissa, exponent 'p' 'P']]

def imaginary : Measure :=
  longest [all [digits .decimal, char 'i'], all [integer, char 'i'], all [float, char 'i']]

def exactly (radix : Radix) (count : Nat) : Measure :=
  all (List.replicate count (one radix.isDigit))

def rune : Measure :=
  all [char '\'', longest [
    one fun character => character != '\'' && character != '\\',
    both (char '\\') (longest [
      both (char 'x') (exactly .hexadecimal 2),
      exactly .octal 3,
      both (char 'u') (exactly .hexadecimal 4),
      both (char 'U') (exactly .hexadecimal 8),
      one fun character => "abfnrtv\\'\"".toList.contains character])],
    char '\'']

/-- A nonempty run of plain characters inside a double-quoted string. -/
def stringRun : Measure := fun text =>
  let length := (text.takeWhile fun character =>
    character != '"' && character != '\n' && character != '\\').length
  if length = 0 then none else some length

/-- An escape sequence inside a double-quoted string. -/
def escape : Measure :=
  both (char '\\') (longest [
    one fun character => character != 'x' && character != 'u' && character != 'U',
    exactly .decimal 2,
    exactly .decimal 3,
    both (char 'x') (exactly .hexadecimal 2),
    both (char 'u') (exactly .hexadecimal 4),
    both (char 'U') (exactly .hexadecimal 8)])

/-- Everything up to the next back quote, possibly nothing. -/
def rawRun : Measure := fun text =>
  some (text.takeWhile (· != '\x60')).length

/-- A word: an identifier or a keyword. -/
def word : Measure
  | first :: rest =>
      if Text.isIdentifierStart first then
        some (1 + (rest.takeWhile Text.isIdentifierPart).length)
      else none
  | [] => none

/-- The length of the longest numeric literal of any sort. -/
def number : Measure :=
  longest [integer, float, imaginary]

/-- Accept a numeric literal that no other sort of number extends. -/
def ofSort (sort : Measure) : Measure := fun text =>
  if sort text = number text then sort text else none

end Measure

/-- The classes of lexemes that make leaves of a syntax tree. -/
inductive Lexeme
  | word (reserved : List Text)
  | exactly (word : Text)
  | integer
  | float
  | imaginary
  | rune
  | stringRun
  | escape
  | rawRun
  deriving DecidableEq, Repr

namespace Lexeme

/-- The length of the lexeme of a class at the front of a text. -/
def length? : Lexeme → Text → Option Nat
  | .word reserved, text =>
      match Measure.word text with
      | some length => if reserved.contains (text.take length) then none else some length
      | none => none
  | .exactly wanted, text =>
      match Measure.word text with
      | some length => if text.take length = wanted then some length else none
      | none => none
  | .integer, text => Measure.ofSort Measure.integer text
  | .float, text => Measure.ofSort Measure.float text
  | .imaginary, text => Measure.ofSort Measure.imaginary text
  | .rune, text => Measure.rune text
  | .stringRun, text => Measure.stringRun text
  | .escape, text => Measure.escape text
  | .rawRun, text => Measure.rawRun text

end Lexeme

end Deinstrument.Go
