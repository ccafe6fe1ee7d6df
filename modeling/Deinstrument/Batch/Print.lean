import Deinstrument.Batch
import Deinstrument.JsonValue

/-!
# Printing batches

The outcomes of a batch for people, or as one value for other programs.
-/

namespace Deinstrument

/-- For whom results are printed. -/
inductive Format
  | human
  | json
  deriving DecidableEq, Repr

def Tally.toJson (tally : Tally) : JsonValue :=
  .object (tally.map fun (name, count) => (name, .number count))

def Report.toJson (report : Report) : JsonValue :=
  .object [
    ("file".toList, .string report.file),
    ("regions".toList, .number report.regions),
    ("spans".toList, .number report.spans),
    ("tags_stripped".toList, .number report.tags),
    ("unwrapped".toList, report.unwrapped.toJson),
    ("statements_removed".toList, report.dropped.toJson),
    ("closures_walked".toList, .number report.closures),
    ("imports_pruned".toList, .array (report.pruned.map .string)),
    ("markers_left".toList, .number report.markersLeft)]

def Outcome.toJson (outcome : Outcome) : JsonValue :=
  .object [
    ("path".toList, .string outcome.location),
    ("changed".toList, .boolean outcome.isChanged),
    match outcome.result with
    | .ok processed => ("report".toList, processed.output.report.toJson)
    | .error cause => ("error".toList, .string cause.message)]

def Summary.toJson (summary : Summary) : JsonValue :=
  .object [
    ("files".toList, .number summary.files),
    ("changed".toList, .number summary.changed),
    ("errors".toList, .number summary.errors)]

namespace Batch

def toJson (outcomes : List Outcome) : JsonValue :=
  .object [
    ("summary".toList, (summary outcomes).toJson),
    ("files".toList, .array (outcomes.map Outcome.toJson))]

/-- The result for a file. -/
def source (outcome : Outcome) : Text :=
  match outcome.result with
  | .ok processed => processed.output.source
  | .error _ => []

/-- The line about a file that changes. -/
def reportLine (outcome : Outcome) : Text :=
  match outcome.result with
  | .ok processed => if processed.changed then processed.output.report.summary ++ ['\n'] else []
  | .error _ => []

def totalLine (summary : Summary) : Text :=
  Text.ofNat summary.files ++ " files, ".toList ++ Text.ofNat summary.changed ++
    " rewritten, ".toList ++ Text.ofNat summary.errors ++ " errors\n".toList

/-- The outcomes of a batch as printed. -/
def print (mode : Mode) (format : Format) (outcomes : List Outcome) : Text :=
  match format, mode with
  | .json, _ => (toJson outcomes).print 0 ++ ['\n']
  | .human, .print => outcomes.flatMap source
  | .human, .check =>
      (outcomes.filter (·.isChanged)).flatMap fun outcome => outcome.location ++ ['\n']
  | .human, .write => outcomes.flatMap reportLine ++ totalLine (summary outcomes)

end Batch

end Deinstrument
