import Deinstrument.Error
import Deinstrument.Location

/-!
# File trees

A file tree lists its files by the names that lead to them from the root.
Directories exist as far as files need them; others are listed as well.
-/

namespace Deinstrument

/-- What a file holds. -/
inductive Contents
  | text (text : Text)
  /-- Bytes that are no text. -/
  | binary
  deriving DecidableEq, Repr

/-- The names from the root of a tree to a file or a directory. -/
abbrev Place := List Text

/-- The files and directories of a tree. -/
structure FileTree where
  files : List (Place × Contents)
  directories : List Place
  deriving Repr

/-- What a location names. -/
inductive Entry
  | file (place : Place)
  | directory (place : Place)
  deriving DecidableEq, Repr

namespace FileTree

def contents? (tree : FileTree) (place : Place) : Option Contents :=
  tree.files.lookup place

def isFile (tree : FileTree) (place : Place) : Bool :=
  (tree.contents? place).isSome

def isDirectory (tree : FileTree) (place : Place) : Bool :=
  place.isEmpty || (tree.directories.any fun other => place.isPrefixOf other) ||
    tree.files.any fun file => place.isPrefixOf file.1 && place.length < file.1.length

/-- Go on from an entry by what stands between two slashes. -/
def follow (tree : FileTree) (entry : Entry) (piece : Text) : Except FileError Entry :=
  match entry with
  | .file _ => .error .notDirectory
  | .directory place =>
      if piece = [] || piece = ['.'] then .ok (.directory place)
      else if piece = ['.', '.'] then .ok (.directory place.dropLast)
      else if tree.isFile (place ++ [piece]) then .ok (.file (place ++ [piece]))
      else if tree.isDirectory (place ++ [piece]) then .ok (.directory (place ++ [piece]))
      else .error .missing

/-- What a location names from the directory `here`. -/
def resolve (tree : FileTree) (here : Place) (location : Text) : Except FileError Entry :=
  if location = [] then .error .missing
  else
    (Text.splitOn '/' location).foldlM tree.follow
      (.directory (if location.head? = some '/' then [] else here))

/-- The text of the file that a location names. -/
def read (tree : FileTree) (here : Place) (location : Text) : Except FileError Text :=
  match tree.resolve here location with
  | .error cause => .error cause
  | .ok (.directory _) => .error .directory
  | .ok (.file place) =>
      match tree.contents? place with
      | some (.text text) => .ok text
      | some .binary => .error .notText
      | none => .error .missing

end FileTree

end Deinstrument
