import Deinstrument.Text

/-!
# Glob patterns

A pattern for relative locations. A star and a question mark stand for
characters within one name, and two stars that fill a whole name stand for any
number of names.
-/

namespace Deinstrument.Ignore

inductive Piece
  | literal (character : Char)
  /-- Any character except for a slash. -/
  | any
  /-- Any characters except for slashes. -/
  | star
  /-- One of the characters in some ranges, or none of them. -/
  | oneOf (negated : Bool) (ranges : List (Char × Char))
  /-- Any names at the front. -/
  | leading
  /-- A slash, any names, and a slash behind each. -/
  | between
  /-- A slash and anything behind it. -/
  | trailing
  deriving DecidableEq, Repr

/-- A pattern with its alternatives spelled out. -/
abbrev Glob := List (List Piece)

/-! ## Reading -/

/-- The ranges of a bracket up to its end. `first` tells whether none has been
read, `opened` whether the last one waits for its upper end; ranges that have
been read are listed from the last to the first. -/
def readRanges (first opened : Bool) (ranges : List (Char × Char)) :
    Text → Option (List (Char × Char) × Text)
  | [] => none
  | ']' :: rest =>
      if first then readRanges false false [(']', ']')] rest
      else some ((if opened then ('-', '-') :: ranges else ranges).reverse, rest)
  | character :: rest =>
      match opened, ranges with
      | true, (low, _) :: others =>
          if character < low then none else readRanges false false ((low, character) :: others) rest
      | _, _ =>
          if character = '-' && !first then readRanges false true ranges rest
          else readRanges false false ((character, character) :: ranges) rest

/-- A bracket behind its opening. -/
def readBracket : Text → Option (Piece × Text)
  | '!' :: rest => (readRanges true false [] rest).map fun (found, left) => (.oneOf true found, left)
  | '^' :: rest => (readRanges true false [] rest).map fun (found, left) => (.oneOf true found, left)
  | text => (readRanges true false [] text).map fun (found, left) => (.oneOf false found, left)

/-- Alternatives in braces that are not closed yet. -/
structure Choice where
  /-- What stands in front of the braces. -/
  front : Glob
  /-- The alternatives that are complete. -/
  complete : Glob
  deriving Repr

/-- Put a piece behind every alternative. -/
def push (piece : Piece) (glob : Glob) : Glob :=
  glob.map (· ++ [piece])

/-- Read a pattern; `current` is what has been read since the last open brace
or comma. -/
def readPieces : Nat → List Choice → Glob → Text → Option Glob
  | 0, _, _, _ => none
  | fuel + 1, choices, current, text =>
      match text with
      | [] => if choices.isEmpty then some current else none
      | '\\' :: rest =>
          match rest with
          | [] => none
          | character :: left => readPieces fuel choices (push (.literal character) current) left
      | '?' :: rest => readPieces fuel choices (push .any current) rest
      | '[' :: rest => do
          let (piece, left) ← readBracket rest
          readPieces fuel choices (push piece current) left
      | '\x7b' :: rest => readPieces fuel (⟨current, []⟩ :: choices) [[]] rest
      | '\x7d' :: rest =>
          match choices with
          | [] => none
          | ⟨front, complete⟩ :: others =>
              let alternatives := complete ++ current
              readPieces fuel others
                (front.flatMap fun pieces => alternatives.map (pieces ++ ·)) rest
      | ',' :: rest =>
          match choices with
          | [] => readPieces fuel [] (push (.literal ',') current) rest
          | ⟨front, complete⟩ :: others =>
              readPieces fuel (⟨front, complete ++ current⟩ :: others) [[]] rest
      | '/' :: '*' :: '*' :: '/' :: rest => readPieces fuel choices (push .between current) rest
      | ['/', '*', '*'] => readPieces fuel choices (push .trailing current) []
      | '*' :: '*' :: '/' :: rest =>
          if current = [[]] then readPieces fuel choices [[.leading]] rest
          else readPieces fuel choices (push .star current) ('/' :: rest)
      | '*' :: rest =>
          if current = [[]] && rest = ['*'] then some [[.leading, .star]]
          else readPieces fuel choices (push .star current) rest
      | character :: rest => readPieces fuel choices (push (.literal character) current) rest

/-- The pattern that a text stands for. -/
def glob? (text : Text) : Option Glob :=
  readPieces (text.length + 1) [] [[]] text

/-! ## Matching -/

/-- What may be left of a text when characters other than slashes go. -/
def afterCharacters : Text → List Text
  | [] => [[]]
  | first :: rest =>
      if first = '/' then [first :: rest] else (first :: rest) :: afterCharacters rest

/-- What may be left of a text when whole names and their slashes go. -/
def afterNames : Text → List Text
  | [] => []
  | first :: rest => if first = '/' then rest :: afterNames rest else afterNames rest

def inRanges (ranges : List (Char × Char)) (character : Char) : Bool :=
  ranges.any fun (low, high) => low ≤ character && character ≤ high

/-- What may be left of a text when one piece has been matched. -/
def Piece.rests : Piece → Text → List Text
  | .literal character, first :: rest => if first = character then [rest] else []
  | .any, first :: rest => if first = '/' then [] else [rest]
  | .star, text => afterCharacters text
  | .oneOf negated ranges, first :: rest =>
      if inRanges ranges first == negated then [] else [rest]
  | .leading, text => text :: afterNames text
  | .between, '/' :: rest => rest :: afterNames rest
  | .trailing, '/' :: _ => [[]]
  | _, _ => []

/-- Whether a text matches a sequence of pieces. -/
def fits : List Piece → Text → Bool
  | [], text => text.isEmpty
  | piece :: pieces, text => (piece.rests text).any (fits pieces)

/-- Whether a text matches one of the alternatives. -/
def Glob.accepts (glob : Glob) (text : Text) : Bool :=
  glob.any fun pieces => fits pieces text

end Deinstrument.Ignore
