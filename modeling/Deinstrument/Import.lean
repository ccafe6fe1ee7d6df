import Deinstrument.Code
import Deinstrument.Go.Node
import Deinstrument.Text.Alphanumeric

/-!
# Imports

An import binds a local name to a package path. Without an explicit name the
local name is guessed from the path, and later imports of the same name hide
earlier ones.
-/

namespace Deinstrument

structure Import where
  /-- The explicit name, which may be a dot or an underscore. -/
  name : Option Text
  /-- The path without its quotes. -/
  path : Text
  deriving Repr, DecidableEq

namespace Import

/-- Whether an element of a path is a major version: `v` and decimal digits. -/
def isVersion : Text → Bool
  | 'v' :: digit :: digits => (digit :: digits).all Char.isDigit
  | _ => false

/-- The element of a path that names the package: the last one, or the one
before it if the last one is a major version. -/
def namingElement (path : Text) : Text :=
  match (Text.splitOn '/' path).reverse with
  | last :: previous :: _ => if isVersion last then previous else last
  | [last] => last
  | [] => []

/-- Text without `go-` in front of it. -/
def dropGo : Text → Text
  | 'g' :: 'o' :: '-' :: rest => rest
  | text => text

/-- The package name assumed for a path: the naming element without `go-`, cut
at the first character that no identifier contains. -/
def assumedName (path : Text) : Text :=
  (dropGo (namingElement path)).takeWhile fun character =>
    Text.isAlphanumeric character || character == '_'

/-- The name by which a file refers to an imported package; an import under a
dot or an underscore has none. -/
def localName (imported : Import) : Option Text :=
  match imported.name with
  | some ['_'] => none
  | some ['.'] => none
  | some name => some name
  | none => some (assumedName imported.path)

def isQuote (character : Char) : Bool :=
  character == '"' || character == '\x60'

/-- A quoted path without its quotes. -/
def unquote (quoted : Text) : Text :=
  ((quoted.dropWhile isQuote).reverse.dropWhile isQuote).reverse

open Go (Node)

/-- The import that a specification node stands for. Text that cannot be read may
stand between its parts. -/
def ofNode? (node : Node) : Option Import :=
  match node.children.filter fun child => child.kind ≠ .error with
  | [path] => some ⟨none, unquote path.text⟩
  | [name, path] => some ⟨some name.text, unquote path.text⟩
  | _ => none

/-- The specification nodes of an import declaration with their positions, when
the declaration starts at `position`. -/
def specNodes (position : Nat) (declaration : Node) : List (Nat × Node) :=
  (declaration.childPositions position).flatMap fun (start, child) =>
    match child.kind with
    | .importSpec => [(start, child)]
    | .importSpecList =>
        (child.childPositions start).filter fun (_, spec) => spec.kind = .importSpec
    | _ => []

/-- The import declarations of a source file with their positions. -/
def declarations (root : Node) : List (Nat × Node) :=
  (root.childPositions 0).filter fun (_, child) => child.kind = .importDeclaration

def ofRoot (root : Node) : List Import :=
  (declarations root).flatMap fun (position, declaration) =>
    (specNodes position declaration).filterMap fun (_, spec) => ofNode? spec

/-- The path bound to a local name: of several imports the last one counts. -/
def pathOf? (imports : List Import) (name : Text) : Option Text :=
  (imports.reverse.find? fun imported => imported.localName = some name).map (·.path)

end Import

/-- A name together with the path of the package that holds it. -/
structure QualifiedName where
  path : Text
  name : Text
  deriving Repr, DecidableEq

/-- The qualified name that an expression refers to, if it selects a member of
an imported package. -/
def Expr.resolve? (imports : List Import) : Expr → Option QualifiedName
  | .selector _ (.ident package) _ name _ =>
      (Import.pathOf? imports package).map fun path => ⟨path, name⟩
  | _ => none

end Deinstrument
