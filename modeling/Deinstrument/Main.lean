import Deinstrument.Command.Run

/-!
# The program

Takes a picture of the files that the arguments name, runs the command on it,
and carries out what the command asks for.
-/

namespace Deinstrument.Command

/-- The names that lead from the root to a path. -/
def placeOf (path : String) : Place :=
  (Text.splitOn '/' path.toList).filter fun name => !name.isEmpty

def pathOf (place : Place) : String :=
  String.ofList ('/' :: Text.join ['/'] place)

def contentsOf (bytes : ByteArray) : Contents :=
  match String.fromUTF8? bytes with
  | some text => .text text.toList
  | none => .binary

/-- Add an entry of the file system, with all that is below it, to a tree. -/
partial def addEntry (tree : FileTree) (entry : IO.FS.DirEntry) : IO FileTree := do
  let place := placeOf entry.path.toString
  if ← entry.path.isDir then
    let extended : FileTree := { tree with directories := place :: tree.directories }
    (← entry.path.readDir).foldlM addEntry extended
  else if ← entry.path.pathExists then
    let contents := contentsOf (← IO.FS.readBinFile entry.path)
    pure { tree with files := (place, contents) :: tree.files }
  else
    pure tree

/-- Add the ignore files of a directory to a tree. -/
def addIgnoreFiles (tree : FileTree) (directory : Place) : IO FileTree :=
  [".ignore", ".gitignore", ".git/info/exclude"].foldlM
    (fun found name => addEntry found ⟨pathOf directory, name⟩) tree

/-- Add what a location names, and the ignore files above it, to a tree. -/
def addLocation (tree : FileTree) (location : Text) : IO FileTree := do
  let path := (← IO.currentDir) / String.ofList location
  if ← path.pathExists then
    let real ← IO.FS.realPath path
    let place := placeOf real.toString
    let found ← addEntry tree ⟨pathOf place.dropLast, String.ofList (place.getLast?.getD [])⟩
    (FileTree.holders place).foldlM addIgnoreFiles found
  else
    pure tree

/-- The variables of the environment that a command knows. -/
def environment : IO (List (Text × Text)) := do
  let found ← [Config.packagesVariable, Config.pruneVariable].mapM fun name => do
    pure (name, ← IO.getEnv (String.ofList name))
  pure (found.filterMap fun (name, value) => value.map fun text => (name, text.toList))

/-- The picture of the files and of the input that a command needs. -/
def surroundings (options : Options) : IO Surroundings := do
  let here := placeOf (← IO.currentDir).toString
  let locations := options.config.getD Config.fileName :: options.locations
  let tree ← locations.foldlM addLocation ⟨[], [here]⟩
  let input ←
    if options.locations.isEmpty then
      pure (contentsOf (← (← IO.getStdin).readBinToEnd))
    else pure .binary
  pure ⟨tree, here, ← environment, input⟩

/-- Print and write what a command asks for. -/
def carryOut (result : Result) : IO UInt32 := do
  for (place, text) in result.written do
    IO.FS.writeFile (pathOf place) (String.ofList text)
  IO.print (String.ofList result.output)
  match result.failure with
  | some cause => IO.eprintln ("Error: " ++ String.ofList cause.message)
  | none => pure ()
  pure (UInt32.ofNat result.code)

end Deinstrument.Command

open Deinstrument.Command in
/-- Run the command with the arguments of the program. -/
def main (arguments : List String) : IO UInt32 := do
  let words := arguments.map String.toList
  match Options.parse words with
  | .ok options => carryOut (runOptions (← surroundings options) options)
  | .error (.usage cause) => do
      IO.eprintln ("error: " ++ String.ofList cause.message)
      carryOut (run ⟨⟨[], []⟩, [], [], .binary⟩ words)
  | .error _ => carryOut (run ⟨⟨[], []⟩, [], [], .binary⟩ words)
