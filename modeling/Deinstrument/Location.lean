import Deinstrument.Text

/-!
# Locations

A location is the text by which a file or a directory is named. Two texts name
the same location if they take the same steps; doubled slashes and points in
the middle make no difference.
-/

namespace Deinstrument

inductive Step
  /-- The slash in front. -/
  | root
  /-- A point in front. -/
  | here
  /-- Two points. -/
  | up
  | name (text : Text)
  deriving DecidableEq, Repr

namespace Step

/-- The place of a kind of step among the kinds. -/
def rank : Step → Nat
  | .root => 0
  | .here => 1
  | .up => 2
  | .name _ => 3

/-- Whether one step comes before another: names follow all else and stand in
the order of their characters. -/
def before : Step → Step → Bool
  | .name first, .name second => decide (first < second)
  | first, second => decide (first.rank < second.rank)

end Step

namespace Location

/-- The steps between slashes; empty ones and points are left out. -/
def inner (pieces : List Text) : List Step :=
  pieces.filterMap fun piece =>
    if piece = [] || piece = ['.'] then none
    else if piece = ['.', '.'] then some .up
    else some (.name piece)

def steps (location : Text) : List Step :=
  match Text.splitOn '/' location with
  | [] => []
  | first :: rest =>
      if first = [] then (if rest = [] then [] else .root :: inner rest)
      else if first = ['.'] then .here :: inner rest
      else inner (first :: rest)

/-- Whether one sequence of steps comes before another. -/
def isBefore : List Step → List Step → Bool
  | _, [] => false
  | [], _ :: _ => true
  | first :: rest, other :: others =>
      if first = other then isBefore rest others else first.before other

/-- Add a location to a sorted list, unless one with the same steps is in it. -/
def insert (location : Text) : List Text → List Text
  | [] => [location]
  | first :: rest =>
      if steps location = steps first then first :: rest
      else if isBefore (steps location) (steps first) then location :: first :: rest
      else first :: insert location rest

/-- The locations in order and without repetition; of those with the same
steps the first is kept. -/
def sorted (locations : List Text) : List Text :=
  locations.foldl (fun list location => insert location list) []

/-- The location of a name below another location. -/
def below (location name : Text) : Text :=
  if location.getLast? = some '/' then location ++ name else location ++ '/' :: name

/-- The part of a name behind its last point. A point in front of a name does
not count. -/
def extension? (name : Text) : Option Text :=
  let fromEnd := name.reverse
  let stem := (fromEnd.dropWhile (· != '.')).drop 1
  if stem.isEmpty then none else some (fromEnd.takeWhile (· != '.')).reverse

end Location

end Deinstrument
