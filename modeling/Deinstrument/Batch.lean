import Deinstrument.Engine
import Deinstrument.FileTree

/-!
# Batches

A batch runs the engine over many files. What happens to one file does not
touch the others: each is read as it was before the run.
-/

namespace Deinstrument

/-- What is done with results. -/
inductive Mode
  | print
  | write
  /-- Only tell which files would change. -/
  | check
  deriving DecidableEq, Repr

/-- A processed file of a batch. -/
structure Processed where
  output : Output
  /-- Whether the result differs from the file. -/
  changed : Bool
  deriving DecidableEq, Repr

/-- What happened to one file of a batch. -/
structure Outcome where
  location : Text
  result : Except Failure Processed
  deriving Repr

structure Summary where
  files : Nat
  changed : Nat
  errors : Nat
  deriving DecidableEq, Repr

namespace Outcome

def isChanged (outcome : Outcome) : Bool :=
  match outcome.result with
  | .ok processed => processed.changed
  | .error _ => false

/-- Whether there is no result for a file. -/
def isError (outcome : Outcome) : Bool :=
  match outcome.result with
  | .ok _ => false
  | .error _ => true

end Outcome

namespace Batch

def processFile (engine : Engine) (tree : FileTree) (here : Place) (location : Text) :
    Except Failure Processed :=
  match tree.read here location with
  | .error cause => .error (.unreadable location cause)
  | .ok source =>
      match engine.run location source with
      | .error cause => .error (.engine cause)
      | .ok output => .ok ⟨output, output.source != source⟩

def process (engine : Engine) (tree : FileTree) (here : Place) (locations : List Text) :
    List Outcome :=
  locations.map fun location => ⟨location, processFile engine tree here location⟩

def summary (outcomes : List Outcome) : Summary :=
  ⟨outcomes.length, outcomes.countP (·.isChanged), outcomes.countP (·.isError)⟩

/-- The code with which a program ends: errors outrank files that would
change. -/
def exitCode (mode : Mode) (summary : Summary) : Nat :=
  if 0 < summary.errors then 2
  else if mode = .check && decide (0 < summary.changed) then 1
  else 0

/-- The new text of the file of an outcome, if it has one. -/
def update? (tree : FileTree) (here : Place) (outcome : Outcome) : Option (Place × Text) :=
  match tree.resolve here outcome.location, outcome.result with
  | .ok (.file place), .ok processed =>
      if processed.changed then some (place, processed.output.source) else none
  | _, _ => none

/-- The files to write, with their new texts. -/
def updates (mode : Mode) (tree : FileTree) (here : Place) (outcomes : List Outcome) :
    List (Place × Text) :=
  if mode = .write then outcomes.filterMap (update? tree here) else []

end Batch

end Deinstrument
