import Deinstrument.Text

/-!
# Rows of items with the text around them

A row keeps a sequence of items together with all text that stands before,
between and behind them. Printing a row interleaves the two again, so no text
is lost when items are read out of a source.
-/

namespace Deinstrument

/-- An item with the text that follows it, up to the next item or the end. -/
structure Spaced (α : Type) where
  value : α
  gap : Text
  deriving Repr, DecidableEq

/-- Items with the text in front of the first one and behind each one. -/
structure Row (α : Type) where
  lead : Text
  items : List (Spaced α)
  deriving Repr, DecidableEq

namespace Row

variable {α β : Type}

def ofText (text : Text) : Row α := ⟨text, []⟩

def values (row : Row α) : List α :=
  row.items.map (·.value)

/-- All gaps of a row in order; there is one more gap than there are items. -/
def gaps (row : Row α) : List Text :=
  row.lead :: row.items.map (·.gap)

/-- Append text to the gap behind the last item of a list of items. -/
def extendLast (text : Text) : List (Spaced α) → List (Spaced α)
  | [] => []
  | [last] => [⟨last.value, last.gap ++ text⟩]
  | first :: rest => first :: extendLast text rest

/-- A row with more text at its end. -/
def push (row : Row α) (text : Text) : Row α :=
  match row.items with
  | [] => ⟨row.lead ++ text, []⟩
  | items => ⟨row.lead, extendLast text items⟩

/-- The text of items and gaps in order, given the text of an item. -/
def textOf (text : α → Text) : List (Spaced α) → Text
  | [] => []
  | item :: rest => text item.value ++ item.gap ++ textOf text rest

/-- The text of a whole row, given the text of an item. -/
def weave (text : α → Text) (row : Row α) : Text :=
  row.lead ++ textOf text row.items

@[simp]
theorem textOf_append (text : α → Text) (front back : List (Spaced α)) :
    textOf text (front ++ back) = textOf text front ++ textOf text back := by
  induction front with
  | nil => rfl
  | cons item rest ih => simp [textOf, ih]

@[simp]
theorem textOf_extendLast (text : α → Text) (added : Text) (items : List (Spaced α))
    (nonempty : items ≠ []) :
    textOf text (extendLast added items) = textOf text items ++ added := by
  induction items with
  | nil => contradiction
  | cons first rest ih =>
      cases rest with
      | nil => simp [extendLast, textOf]
      | cons second more => simp [extendLast, textOf] at ih ⊢; simpa using ih

@[simp]
theorem weave_push (text : α → Text) (row : Row α) (added : Text) :
    (row.push added).weave text = row.weave text ++ added := by
  obtain ⟨lead, items⟩ := row
  cases items with
  | nil => simp [push, weave, textOf]
  | cons first rest => simp [push, weave]

end Row

end Deinstrument
