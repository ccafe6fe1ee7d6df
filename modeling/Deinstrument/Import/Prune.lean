import Deinstrument.Go.Grammar
import Deinstrument.Import

/-!
# Removing unused imports

The imports of given paths that a source no longer refers to are removed
together with their lines. The deletions are planned on the syntax tree first
and then applied to the text from back to front.
-/

namespace Deinstrument

/-- The positions of a text from `start` up to but not including `stop`. -/
structure Extent where
  start : Nat
  stop : Nat
  deriving Repr, DecidableEq

namespace Extent

/-- Insert an extent behind all extents that do not start before it. -/
def insert (extent : Extent) : List Extent → List Extent
  | [] => [extent]
  | first :: rest =>
      if extent.start ≤ first.start then first :: insert extent rest
      else extent :: first :: rest

/-- Extents ordered from back to front; those with the same start keep their
order. -/
def sort (extents : List Extent) : List Extent :=
  extents.foldl (fun sorted extent => insert extent sorted) []

/-- A text without an extent, whose positions are limited to the text. -/
def delete (text : Text) (extent : Extent) : Text :=
  let stop := min extent.stop text.length
  let start := min extent.start stop
  text.take start ++ text.drop stop

/-- A text without several extents, deleted from back to front. -/
def deleteAll (text : Text) (extents : List Extent) : Text :=
  (sort extents).foldl delete text

/-- The position of the first character of the line that holds a position. -/
def lineStart (text : Text) (position : Nat) : Nat :=
  position - ((text.take position).reverse.takeWhile (· != '\n')).length

/-- An extent widened to whole lines when it is alone on its lines. If a blank
line stands above it, a blank line below goes as well, and in front of a
closing parenthesis the blank line above goes instead. -/
def wholeLines (text : Text) (extent : Extent) : Extent :=
  let first := lineStart text extent.start
  let indent := (text.take extent.start).drop first
  let lineRest := (text.drop extent.stop).takeWhile (· != '\n')
  let comment := Text.trimStart lineRest
  if !indent.all Text.isBlank then extent
  else if !(comment.isEmpty || Text.startsWith comment ['/', '/']) then extent
  else
    let lineEnd := extent.stop + lineRest.length
    let stop := if lineEnd < text.length then lineEnd + 1 else lineEnd
    let blankAbove := first == 0 ||
      (2 ≤ first && text[first - 1]? == some '\n' && text[first - 2]? == some '\n')
    if blankAbove && text[stop]? == some '\n' then ⟨first, stop + 1⟩
    else if blankAbove && first != 0 &&
        Text.startsWith (Text.trimStart (text.drop stop)) [')'] then ⟨first - 1, stop⟩
    else ⟨first, stop⟩

end Extent

namespace Import

open Go (Node)

/-- The text that a node qualifies a name with: the operand of a selector or
the package of a qualified type. -/
def qualifier? (node : Node) : Option Text :=
  match node.kind with
  | .selectorExpression => node.children.head?.map Node.text
  | .qualifiedType => node.children.head?.map Node.text
  | _ => none

mutual
/-- Whether a node outside import declarations qualifies a name with `name`. -/
def refersTo (name : Text) : Node → Bool
  | .mk kind line ⟨lead, items⟩ =>
      if kind = .importDeclaration then false
      else
        qualifier? (.mk kind line ⟨lead, items⟩) == some name || anyRefersTo name items
/-- Whether one of several nodes qualifies a name with `name`. -/
def anyRefersTo (name : Text) : List (Spaced Node) → Bool
  | [] => false
  | ⟨node, _⟩ :: rest => refersTo name node || anyRefersTo name rest
end

/-- Whether an import is to be removed: its path is listed, it binds a local
name, and nothing refers to that name. -/
def isUnused (root : Node) (paths : List Text) (imported : Import) : Bool :=
  paths.contains imported.path &&
    match imported.localName with
    | some name => !refersTo name root
    | none => false

/-- What removing unused imports does: the paths that go and the extents that
are deleted. -/
structure Plan where
  removed : List Text
  deletions : List Extent
  deriving Repr, DecidableEq

/-- The extent of a node that starts at a position. -/
def extentOf : Nat × Node → Extent
  | (position, node) => ⟨position, position + node.text.length⟩

/-- The plan for one import declaration: the declaration goes as a whole when
all its imports go. -/
def planDeclaration (root : Node) (text : Text) (paths : List Text)
    (declaration : Nat × Node) : Plan :=
  let specs := specNodes declaration.1 declaration.2
  let doomed := specs.filterMap fun spec =>
    (ofNode? spec.2).bind fun imported =>
      if isUnused root paths imported then some (imported.path, spec) else none
  let deletions :=
    if doomed.isEmpty then []
    else if doomed.length = specs.length then [extentOf declaration]
    else doomed.map fun (_, spec) => extentOf spec
  ⟨doomed.map (·.1), deletions.map (Extent.wholeLines text)⟩

def plan (root : Node) (text : Text) (paths : List Text) : Plan :=
  let plans := (declarations root).map (planDeclaration root text paths)
  ⟨plans.flatMap (·.removed), plans.flatMap (·.deletions)⟩

/-- A source without the unused imports of given paths, and the paths that
went. A source that does not parse is pruned as far as the tree shows imports
that is made of it all the same. -/
def prune (text : Text) (paths : List Text) (recover : Text → Node := Node.unread) :
    List Text × Text :=
  let found := plan ((Go.parse? text).getD (recover text)) text paths
  (found.removed, Extent.deleteAll text found.deletions)

end Import

end Deinstrument
