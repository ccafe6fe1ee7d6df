import Deinstrument.Proofs.Run

/-!
# Results do not depend on rules

Rules look at regions that have been cut out already, so what they do to a
region never gets back into the block. What they leave behind is counts in the
report, and a count is made only for a region that is counted as well. Whether
a report is clean, and with it whether imports are pruned, can therefore be
told without the counts of rules.
-/

namespace Deinstrument

/-! ## Reports without the counts of rules -/

/-- A report without the counts that rules make. -/
def Report.withoutRules (report : Report) : Report :=
  { report with unwrapped := [], dropped := [] }

/-- Rules have made no count unless a region was removed. -/
def Report.Backed (report : Report) : Prop :=
  report.regions = 0 → report.unwrapped.total = 0 ∧ report.dropped.total = 0

namespace Engine

/-- A removal without the rules that fit. -/
def Removal.withoutRules (removal : Removal) : Removal :=
  { removal with unwrapped := [], dropped := [] }

/-- Rules fit nothing unless a region was removed. -/
def Removal.Backed (removal : Removal) : Prop :=
  removal.regions = 0 → removal.unwrapped = [] ∧ removal.dropped = []

section

variable {change other : Block Action → Block Action × Removal}
  (same : ∀ body, (change body).1 = (other body).1)

include same

end

section

variable (first second : Engine) (scope : Scope)

end

/-! ## Files -/

/-- Two reports that differ at most in the counts of rules, all of which stem
from regions. -/
structure Agreement (report other : Report) : Prop where
  same : report.withoutRules = other.withoutRules
  backed : report.Backed
  otherBacked : other.Backed

namespace Agreement

/-- Counting the same function values and markers in both reports. -/
theorem count {report other : Report} (agree : Agreement report other) (closures markers : Nat) :
    Agreement
      { report with
        closures := report.closures + closures, markersLeft := report.markersLeft + markers }
      { other with
        closures := other.closures + closures, markersLeft := other.markersLeft + markers } where
  same := congrArg (fun common : Report =>
    { common with
      closures := common.closures + closures
      markersLeft := common.markersLeft + markers }) agree.same
  backed := agree.backed
  otherBacked := agree.otherBacked

/-- Listing the same pruned imports in both reports. -/
theorem prune {report other : Report} (agree : Agreement report other) (pruned : List Text) :
    Agreement { report with pruned := pruned } { other with pruned := pruned } where
  same := congrArg (fun common : Report => { common with pruned := pruned }) agree.same
  backed := agree.backed
  otherBacked := agree.otherBacked

end Agreement

variable (first second : Engine) (scope : Scope)

end Engine

end Deinstrument
