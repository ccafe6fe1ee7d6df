import Deinstrument.Go.Kind
import Deinstrument.Row

/-!
# Syntax trees

A syntax tree holds every character of the source it was read from: a node is
a row of child nodes, and punctuation, blanks and comments are the gaps of
that row. The view of a tree is its text.
-/

namespace Deinstrument.Go

/-- A construct of the source: its kind, the line it starts on, and its
children with all text between them. -/
inductive Node where
  | mk (kind : Kind) (line : Nat) (row : Row Node)

namespace Node

def kind : Node → Kind
  | .mk kind _ _ => kind

/-- The line on which the node starts, counted from one. -/
def line : Node → Nat
  | .mk _ line _ => line

/-- The children of the node with the text around them. -/
def row : Node → Row Node
  | .mk _ _ row => row

def children (node : Node) : List Node :=
  node.row.values

mutual
def text : Node → Text
  | .mk _ _ ⟨lead, items⟩ => lead ++ textItems items
def textItems : List (Spaced Node) → Text
  | [] => []
  | ⟨node, gap⟩ :: rest => node.text ++ gap ++ textItems rest
end

theorem textItems_eq (items : List (Spaced Node)) : textItems items = Row.textOf text items := by
  induction items with
  | nil => rfl
  | cons item rest ih => simp [textItems, Row.textOf, ih]

/-- The text of a node is the text of its row. -/
theorem text_eq_weave (node : Node) : node.text = node.row.weave text := by
  obtain ⟨kind, line, lead, items⟩ := node
  simp [text, row, Row.weave, textItems_eq]

/-- The tree of a text in which nothing can be read. -/
def unread (text : Text) : Node :=
  .mk .error 1 (.ofText text)

/-- Each item of a list of items with the position at which it starts, the
first one starting at `position`. -/
def positions (position : Nat) : List (Spaced Node) → List (Nat × Node)
  | [] => []
  | ⟨node, gap⟩ :: rest =>
      (position, node) :: positions (position + node.text.length + gap.length) rest

/-- The children of a node with the positions at which they start, when the
node itself starts at `position`. -/
def childPositions (position : Nat) (node : Node) : List (Nat × Node) :=
  positions (position + node.row.lead.length) node.row.items

mutual
/-- The text of the first node of a kind, a node coming before its children. -/
def firstText? (wanted : Kind) : Node → Option Text
  | .mk kind line ⟨lead, items⟩ =>
      if kind = wanted then some (text (.mk kind line ⟨lead, items⟩))
      else firstTextIn? wanted items
/-- The text of the first node of a kind among nodes in order. -/
def firstTextIn? (wanted : Kind) : List (Spaced Node) → Option Text
  | [] => none
  | ⟨node, _⟩ :: rest =>
      match firstText? wanted node with
      | some found => some found
      | none => firstTextIn? wanted rest
end

end Node

end Deinstrument.Go
