import Deinstrument.Cut

/-!
# Spans

A span starts at the last statement with a start marker above it, or at the
first statement if there is none, and ends at the first end marker: one above
a statement leaves that statement in place, one behind a statement takes it
along. Statements tagged as instrumented in place lose the tag and stay.
-/

namespace Deinstrument.Span

variable {Action : Type}

/-- What one scan of a list of statements finds. -/
inductive Scan (Action : Type)
  /-- No end marker. -/
  | done (stmts : List (Stmt Action))
  /-- A span without statements, whose markers are dropped. -/
  | hollow (stmts : List (Stmt Action))
  | found (cut : Cut Action)

/-- The cut that takes a list of statements out, keeping the comments above the
start marker of the first one. -/
def cutOut (front : List (Stmt Action)) : List (Stmt Action) → List (Stmt Action) → Cut Action
  | [], back => ⟨front, [], [], back⟩
  | first :: rest, back =>
      let (carried, detached) := first.detach .spanStart
      ⟨front, detached :: rest, carried, back⟩

/-- Look for the first span and count the tags dropped on the way; `front` and
`inside` are the statements before and since the last start marker. -/
def scanFrom (front inside : List (Stmt Action)) : List (Stmt Action) → Scan Action × Nat
  | [] => (.done (front ++ inside), 0)
  | stmt :: rest =>
      let starts := stmt.hasBefore .spanStart
      let front := if starts then front ++ inside else front
      let inside := if starts then [] else inside
      if stmt.hasBefore .spanEnd then
        let cleared := (stmt.stripBefore .spanEnd).1
        if inside.isEmpty then
          (.hollow (front ++ (cleared.stripBefore .spanStart).1 :: rest), 0)
        else (.found (cutOut front inside (cleared :: rest)), 0)
      else if stmt.hasAfter .spanEnd then (.found (cutOut front (inside ++ [stmt]) rest), 0)
      else if stmt.hasBefore .instrumented then
        let (untagged, tags) := stmt.strip .instrumented
        let (result, later) := scanFrom front (inside ++ [untagged]) rest
        (result, tags + later)
      else scanFrom front (inside ++ [stmt]) rest

/-- Look for the first span of a list of statements. -/
def scan (stmts : List (Stmt Action)) : Scan Action × Nat :=
  scanFrom [] [] stmts

/-- How much a removal of spans did. -/
structure Counts where
  spans : Nat
  tags : Nat
  deriving Repr, DecidableEq

/-- Remove spans from a block in at most `fuel` scans. -/
def removeUpTo : Nat → Block Action → Block Action × Counts
  | 0, block => (block, ⟨0, 0⟩)
  | fuel + 1, block =>
      match scan block.stmts with
      | (.done stmts, tags) => ({ block with stmts := stmts }, ⟨0, tags⟩)
      | (.hollow stmts, tags) =>
          let (final, counts) := removeUpTo fuel { block with stmts := stmts }
          (final, ⟨counts.spans, tags + counts.tags⟩)
      | (.found cut, tags) =>
          let (final, counts) := removeUpTo fuel (cut.apply block)
          (final, ⟨counts.spans + 1, tags + counts.tags⟩)

/-- The number of end markers on the statements of a block. -/
def endCount (block : Block Action) : Nat :=
  (block.stmts.flatMap fun stmt => stmt.before ++ stmt.after).countP fun entry =>
    Marker.spanEnd.isOn (Comment.body entry)

/-- Remove all spans of a block. Each scan but the last drops an end marker. -/
def remove (block : Block Action) : Block Action × Counts :=
  removeUpTo (endCount block + 1) block

end Deinstrument.Span
