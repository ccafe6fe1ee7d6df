import Deinstrument.Text

/-!
# Tallies

Counts under names, ordered by name. Only names with a count are listed.
-/

namespace Deinstrument

/-- Counts under names, in the order of the names' characters. -/
abbrev Tally := List (Text × Nat)

namespace Tally

def add (name : Text) (count : Nat) : Tally → Tally
  | [] => [(name, count)]
  | (other, found) :: rest =>
      if name = other then (other, found + count) :: rest
      else if name < other then (name, count) :: (other, found) :: rest
      else (other, found) :: add name count rest

def merge (into counts : Tally) : Tally :=
  counts.foldl (fun total entry => add entry.1 entry.2 total) into

/-- Count how often each name occurs. -/
def ofNames (names : List Text) : Tally :=
  names.foldl (fun total name => add name 1 total) []

def total (tally : Tally) : Nat :=
  tally.foldr (fun entry total => entry.2 + total) 0

@[simp]
theorem total_add (name : Text) (count : Nat) (tally : Tally) :
    (add name count tally).total = count + tally.total := by
  induction tally with
  | nil => simp [add, total]
  | cons entry rest ih =>
      obtain ⟨other, found⟩ := entry
      simp only [total] at ih ⊢
      unfold add
      split
      · simp; omega
      · split
        · simp
        · simp [ih]; omega

end Tally

end Deinstrument
