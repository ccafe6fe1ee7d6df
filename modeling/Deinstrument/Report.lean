import Deinstrument.Tally

/-!
# Reports

What was done to one file.
-/

namespace Deinstrument

/-- The counts of everything that was removed from a file. -/
structure Report where
  /-- The name under which the file was processed. -/
  file : Text
  regions : Nat
  spans : Nat
  tags : Nat
  /-- Applications of unwrap rules. -/
  unwrapped : Tally
  /-- Statements that middleware rules picked out. -/
  dropped : Tally
  /-- Function values whose bodies were searched. -/
  closures : Nat
  pruned : List Text
  markersLeft : Nat
  deriving Repr, DecidableEq

namespace Report

/-- The report on a file to which nothing has been done. -/
def ofFile (file : Text) : Report :=
  ⟨file, 0, 0, 0, [], [], 0, [], 0⟩

/-- Whether nothing was removed. -/
def isClean (report : Report) : Bool :=
  report.regions == 0 && report.spans == 0 && report.tags == 0 &&
    report.unwrapped.total == 0 && report.dropped.total == 0 && report.pruned.isEmpty

def summary (report : Report) : Text :=
  if report.isClean then report.file ++ ": clean".toList
  else
    report.file ++ ": ".toList ++ Text.ofNat report.regions ++ " regions, ".toList ++
      Text.ofNat report.spans ++ " spans, ".toList ++ Text.ofNat report.tags ++
      " tags, ".toList ++ Text.ofNat report.unwrapped.total ++ " unwrapped, ".toList ++
      Text.ofNat report.dropped.total ++ " statements removed".toList ++
      (if report.pruned.isEmpty then []
        else ", pruned ".toList ++ Text.join ", ".toList report.pruned) ++
      (if report.markersLeft = 0 then []
        else " (".toList ++ Text.ofNat report.markersLeft ++ " markers left)".toList)

end Report

end Deinstrument
