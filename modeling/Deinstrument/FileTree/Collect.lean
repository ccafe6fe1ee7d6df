import Deinstrument.FileTree
import Deinstrument.Ignore

/-!
# Collecting files

The files to process are those that are named, and the source files in the
directories that are named. Below a directory, hidden entries and entries that
an ignore file mentions are passed over, with all that is below them.
-/

namespace Deinstrument.FileTree

/-- The directories that hold a place, the innermost first. -/
def holders : Place → List Place
  | [] => []
  | first :: rest => (holders rest).map (first :: ·) ++ [[]]

/-- The patterns of an ignore file in a directory. -/
def patterns (tree : FileTree) (directory file : Place) : List Ignore.Pattern :=
  match tree.contents? (directory ++ file) with
  | some (.text text) => Ignore.ofText text
  | _ => []

/-- What the ignore files of some directories say about an entry; the first
that says something decides. -/
def verdictOf? (tree : FileTree) (file : Place) (directories : List Place)
    (isDirectory : Bool) (place : Place) : Option Bool :=
  directories.findSome? fun directory =>
    Ignore.verdict? (tree.patterns directory file) isDirectory
      (Text.join ['/'] (place.drop directory.length))

def isRepository (tree : FileTree) (directory : Place) : Bool :=
  let mark := directory ++ [".git".toList]
  tree.isFile mark || tree.isDirectory mark

/-- The directories up to the first that is the root of a repository, or none
if none of them is. -/
def withinRepository (tree : FileTree) : List Place → List Place
  | [] => []
  | directory :: rest =>
      if tree.isRepository directory then [directory]
      else
        match tree.withinRepository rest with
        | [] => []
        | found => directory :: found

/-- What all ignore files together say about an entry. Those of a repository
only count inside it. -/
def ignored? (tree : FileTree) (isDirectory : Bool) (place : Place) : Option Bool :=
  let directories := holders place
  let inner := tree.withinRepository directories
  (tree.verdictOf? [".ignore".toList] directories isDirectory place).or
    ((tree.verdictOf? [".gitignore".toList] inner isDirectory place).or
      (tree.verdictOf? [".git".toList, "info".toList, "exclude".toList] inner isDirectory place))

/-- Whether the name of an entry starts with a point. -/
def isHidden (place : Place) : Bool :=
  ((place.getLast?.getD []).head?.map (· == '.')).getD false

def skips (tree : FileTree) (isDirectory : Bool) (place : Place) : Bool :=
  (tree.ignored? isDirectory place).getD (isHidden place)

/-- Whether a file below a directory is found from there: nothing on the way is
passed over. -/
def finds (tree : FileTree) (directory place : Place) : Bool :=
  ((holders place).filter fun holder => directory.length < holder.length).all
    (fun holder => !tree.skips true holder) && !tree.skips false place

/-- Whether a place has the name of a source file. -/
def isSource (place : Place) : Bool :=
  decide (Location.extension? (place.getLast?.getD []) = some "go".toList)

/-- The locations of the source files below a directory. -/
def walk (tree : FileTree) (directory : Place) (location : Text) : List Text :=
  let places := (tree.files.map (·.1)).filter fun place =>
    directory.isPrefixOf place && isSource place && tree.finds directory place
  places.map fun place => (place.drop directory.length).foldl Location.below location

/-- The locations that a given location stands for. -/
def expand (tree : FileTree) (here : Place) (location : Text) : Except Failure (List Text) :=
  match tree.resolve here location with
  | .ok (.file _) => .ok [location]
  | .ok (.directory place) => .ok (tree.walk place location)
  | .error _ => .error (.noSuchFile location)

/-- All files to process, in order and without repetition. -/
def collect (tree : FileTree) (here : Place) (locations : List Text) :
    Except Failure (List Text) :=
  (locations.mapM (tree.expand here)).map fun found => Location.sorted found.flatten

end Deinstrument.FileTree
