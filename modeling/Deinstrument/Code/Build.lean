import Deinstrument.Code
import Deinstrument.Go.Node

/-!
# Code of a syntax tree

The functions, statements and expressions of a syntax tree. Comments between
statements are attached to the statement whose line they stand on, or else to
the one below them; those behind the last statement belong to that statement.
-/

namespace Deinstrument.Code

open Go (Node Kind)

/-- The gap behind the last of some nodes. -/
def lastGap : List (Spaced Node) → Text
  | [] => []
  | [last] => last.gap
  | _ :: rest => lastGap rest

/-- Whether a text ends with a closing brace. -/
def endsBlock (text : Text) : Bool :=
  text.getLast? == some '}'

mutual

def expr : Node → Expr
  | .mk kind line ⟨lead, items⟩ =>
      if kind.isName then .ident (Node.text (.mk kind line ⟨lead, items⟩))
      else
        match kind, items with
        | .selectorExpression, [⟨operand, dot⟩, ⟨field, tail⟩] =>
            .selector lead (expr operand) dot field.text tail
        | .callExpression, ⟨callee, gap⟩ :: rest =>
            match arguments gap rest with
            | some row => .call lead (expr callee) row
            | none => .other kind ⟨lead, ⟨expr callee, gap⟩ :: exprs rest⟩
        | .compositeLiteral, [⟨type, gap⟩, ⟨.mk _ _ ⟨start, elements⟩, tail⟩] =>
            .literal lead (expr type) (Row.push ⟨gap ++ start, exprs elements⟩ tail)
        | .literalValue, items => .elements ⟨lead, exprs items⟩
        | .keyedElement, [⟨key, colon⟩, ⟨value, tail⟩] =>
            .keyed lead (expr key) colon (expr value) tail
        | .literalElement, [⟨inner, gap⟩] =>
            if lead.isEmpty && gap.isEmpty then expr inner
            else .other kind ⟨lead, [⟨expr inner, gap⟩]⟩
        | .funcLiteral, items =>
            match function lead items with
            | some found => found
            | none => .other kind ⟨lead, exprs items⟩
        | _, items => .other kind ⟨lead, exprs items⟩

/-- The expressions of nodes, with the gaps behind them. -/
def exprs : List (Spaced Node) → List (Spaced Expr)
  | [] => []
  | ⟨node, gap⟩ :: rest => ⟨expr node, gap⟩ :: exprs rest

/-- The arguments of a call, from the children behind the callee: the last
child holds them, and all text before it joins the gap. -/
def arguments (gap : Text) : List (Spaced Node) → Option (Row Expr)
  | [] => none
  | [⟨.mk kind _ ⟨lead, items⟩, tail⟩] =>
      if kind = .argumentList then some (Row.push ⟨gap ++ lead, exprs items⟩ tail) else none
  | ⟨node, more⟩ :: rest => arguments (gap ++ node.text ++ more) rest

/-- A function value, from the children that remain: the last one is the body,
and all text before it joins the head. -/
def function (head : Text) : List (Spaced Node) → Option Expr
  | [] => none
  | [⟨body, tail⟩] =>
      if tail.isEmpty then
        match block body with
        | some found => some (.function head found)
        | none => none
      else none
  | ⟨node, gap⟩ :: rest => function (head ++ node.text ++ gap) rest

/-- The block of a node, provided that braces enclose it. -/
def block : Node → Option (Block Action)
  | .mk kind _ ⟨lead, items⟩ =>
      match lead, items with
      | '{' :: inner, [] =>
          if kind = .block && endsBlock inner then
            let opening := Comment.splitTrailing inner.dropLast
            some ⟨'{' :: (opening.terminator ++ opening.entries.flatten), [],
              opening.rest ++ ['}']⟩
          else none
      | '{' :: inner, items =>
          if kind = .block && endsBlock (lastGap items) then
            let opening := Comment.splitTrailing inner
            let (stmts, closing) := statements opening.rest items
            some ⟨'{' :: (opening.terminator ++ opening.entries.flatten), stmts,
              closing ++ ['}']⟩
          else none
      | _, _ => none

/-- The statements of nodes, and the text between the last one and the closing
brace; `pending` is the text in front of the first node. -/
def statements (pending : Text) : List (Spaced Node) → List (Stmt Action) × Text
  | [] => ([], pending)
  | [⟨node, gap⟩] =>
      let leading := Comment.splitLeading pending
      let trailing := Comment.splitTrailing gap.dropLast
      let dangling := Comment.splitLeading trailing.rest
      ([⟨leading.entries, leading.space, action node, trailing.terminator,
        trailing.entries ++ dangling.entries, node.line⟩], dangling.space)
  | ⟨node, gap⟩ :: rest =>
      let leading := Comment.splitLeading pending
      let trailing := Comment.splitTrailing gap
      let (later, closing) := statements trailing.rest rest
      (⟨leading.entries, leading.space, action node, trailing.terminator, trailing.entries,
        node.line⟩ :: later, closing)

def action : Node → Action
  | .mk kind line ⟨lead, items⟩ =>
      match kind, items with
      | .expressionStatement, [⟨value, tail⟩] => .expression lead (expr value) tail
      | .assignmentStatement, [⟨.mk _ _ ⟨first, targets⟩, gap⟩, ⟨.mk _ _ ⟨second, values⟩, tail⟩] =>
          .assignment ⟨lead ++ first, exprs targets⟩
            (Row.push ⟨gap ++ second, exprs values⟩ tail)
      | .shortVarDeclaration, [⟨.mk _ _ ⟨first, targets⟩, gap⟩, ⟨.mk _ _ ⟨second, values⟩, tail⟩] =>
          .assignment ⟨lead ++ first, exprs targets⟩
            (Row.push ⟨gap ++ second, exprs values⟩ tail)
      | .returnStatement, [] => .results ⟨lead, []⟩
      | .returnStatement, [⟨.mk _ _ ⟨first, values⟩, tail⟩] =>
          .results (Row.push ⟨lead ++ first, exprs values⟩ tail)
      | _, _ => .verbatim (Node.text (.mk kind line ⟨lead, items⟩))

end

/-! ## Functions and files -/

/-- The children in front of the last one as text, and the last one. -/
def splitLast (head : Text) : List (Spaced Node) → Option (Text × Spaced Node)
  | [] => none
  | [last] => some (head, last)
  | ⟨node, gap⟩ :: rest => splitLast (head ++ node.text ++ gap) rest

/-- The text of the first child of a kind. -/
def childText? (wanted : Kind) (node : Node) : Option Text :=
  (node.children.find? fun child => child.kind = wanted).map Node.text

/-- The name of a declared function; a method carries the name of its
receiver's type. -/
def functionName (node : Node) : Text :=
  if node.kind = .methodDeclaration then
    let method := (childText? .fieldIdentifier node).getD []
    match node.children.head?.bind (Node.firstText? .typeIdentifier) with
    | some receiver => receiver ++ ['.'] ++ method
    | none => method
  else (childText? .identifier node).getD []

/-- The body of a declared function with the text in front of it, if it has one. -/
def functionBody (node : Node) : Option (Text × Block Action) :=
  match splitLast node.row.lead node.row.items with
  | some (head, ⟨last, gap⟩) =>
      if gap.isEmpty then (block last).map fun body => (head, body) else none
  | none => none

def functionOf (node : Node) : FunctionDecl :=
  match functionBody node with
  | some (head, body) => ⟨functionName node, head, some body⟩
  | none => ⟨functionName node, node.text, none⟩

def isFunction (node : Node) : Bool :=
  node.kind = .functionDeclaration || node.kind = .methodDeclaration

/-- A text as an item, unless it is empty. -/
def textItem (text : Text) : List Item :=
  if text.isEmpty then [] else [.text text]

/-- The items of top-level nodes; `pending` is the text since the last function. -/
def itemsFrom (pending : Text) : List (Spaced Node) → List Item
  | [] => textItem pending
  | ⟨node, gap⟩ :: rest =>
      if isFunction node then
        textItem pending ++ .function (functionOf node) :: itemsFrom gap rest
      else itemsFrom (pending ++ node.text ++ gap) rest

/-- The items of a whole source file. -/
def items (root : Node) : List Item :=
  itemsFrom root.row.lead root.row.items

def print (items : List Item) : Text :=
  items.flatMap Item.print

end Deinstrument.Code
