import Deinstrument.Cut

/-!
# Regions

A region runs from a statement with a start marker above it to the next end
marker: an end marker above a statement leaves that statement in place, one
behind a statement takes it along. After every removal the scan starts again
from the top. A start marker without an end is dropped and its statements are
kept.
-/

namespace Deinstrument.Region

variable {Action : Type}

/-- The statements up to the first end marker and those behind it, with the
end marker dropped. -/
def closeAmong : List (Stmt Action) → Option (List (Stmt Action) × List (Stmt Action))
  | [] => none
  | stmt :: rest =>
      let (above, aboveCount) := stmt.stripBefore .regionEnd
      if 0 < aboveCount then some ([], above :: rest)
      else
        let (behind, behindCount) := stmt.stripAfter .regionEnd
        if 0 < behindCount then some ([behind], rest)
        else
          match closeAmong rest with
          | some (inside, outside) => some (stmt :: inside, outside)
          | none => none

/-- The region that opens at a statement, and the statements behind it. -/
def close (first : Stmt Action) (rest : List (Stmt Action)) :
    Option (List (Stmt Action) × List (Stmt Action)) :=
  let (behind, behindCount) := first.stripAfter .regionEnd
  if 0 < behindCount then some ([behind], rest)
  else
    match closeAmong rest with
    | some (inside, outside) => some (first :: inside, outside)
    | none => none

/-- What one scan of a list of statements finds. -/
inductive Scan (Action : Type)
  /-- No region; start markers without an end are dropped. -/
  | done (stmts : List (Stmt Action))
  | found (cut : Cut Action)

/-- The result of a scan with one more statement in front. -/
def Scan.addFront (stmt : Stmt Action) : Scan Action → Scan Action
  | .done stmts => .done (stmt :: stmts)
  | .found cut => .found (cut.addFront stmt)

/-- Look for the first region. -/
def scan : List (Stmt Action) → Scan Action
  | [] => .done []
  | stmt :: rest =>
      if stmt.hasBefore .regionStart then
        let (carried, detached) := stmt.detach .regionStart
        let first := (detached.stripBefore .regionStart).1
        match close first rest with
        | some (inside, outside) => .found ⟨[], inside, carried, outside⟩
        | none => (scan rest).addFront (first.attach carried)
      else (scan rest).addFront stmt

/-- Remove regions from a block, at most `fuel` of them, and return them in the
order of their removal. -/
def removeUpTo : Nat → Block Action → Block Action × List (List (Stmt Action))
  | 0, block => (block, [])
  | fuel + 1, block =>
      match scan block.stmts with
      | .done stmts => ({ block with stmts := stmts }, [])
      | .found cut =>
          let (final, regions) := removeUpTo fuel (cut.apply block)
          (final, cut.removed :: regions)

/-- Remove all regions of a block. A region has at least one statement, so
there are no more regions than statements. -/
def remove (block : Block Action) : Block Action × List (List (Stmt Action)) :=
  removeUpTo (block.stmts.length + 1) block

end Deinstrument.Region
