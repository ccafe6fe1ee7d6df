import Deinstrument.Import

/-!
# Rules

Rules recognise instrumentation that has no markers of its own. An unwrap rule
replaces the call of a wrapper by the argument of that call; a statement rule
picks out whole statements, such as those that register a middleware. Rules
are open: any name with a way to recognise something is one. The usual ones
know the instrumentation packages through the imports of the file, so that an
alias matches as well.
-/

namespace Deinstrument

/-- What rules need to know about a file. -/
structure Scope where
  imports : List Import
  packages : List Text
  deriving Repr, DecidableEq

namespace Scope

/-- Whether an expression is one of several names of an instrumentation package. -/
def refersTo (scope : Scope) (names : List Text) (expr : Expr) : Bool :=
  match expr.resolve? scope.imports with
  | some found => names.contains found.name && scope.packages.contains found.path
  | none => false

/-- The argument of the call of a wrapper with one of several names. -/
def wrapped? (scope : Scope) (names : List Text) : Expr → Option Expr
  | .call _ callee ⟨_, [⟨argument, _⟩]⟩ =>
      if scope.refersTo names callee then some argument else none
  | _ => none

end Scope

/-- Change the items for which a change is given; without any, there is none. -/
def changeItems (change : Expr → Option Expr) (items : List (Spaced Expr)) :
    Option (List (Spaced Expr)) :=
  if items.any fun item => (change item.value).isSome then
    some (items.map fun item => ⟨(change item.value).getD item.value, item.gap⟩)
  else none

/-- A rule that takes wrappers off. -/
structure UnwrapRule where
  /-- The name under which applications are counted. -/
  name : String
  /-- The action of a statement with a wrapper taken off, if the rule fits it. -/
  onAction : Scope → Action → Option Action
  /-- An expression with a wrapper taken off, if the rule fits it. -/
  onExpr : Scope → Expr → Option Expr

namespace UnwrapRule

def clientWrappers : List Text := ["WrapHTTPClient".toList]

def handlerWrappers : List Text := ["WrapHandler".toList, "WrapHandlerFunc".toList]

def sqlWrappers : List Text := ["WrapSQLDB".toList, "WrapSQLDriver".toList]

def grpcWrappers : List Text := ["WrapGRPCClientConn".toList]

/-- The wrappers that fit a method that registers handlers. -/
def registeredWrappers? (method : Text) : Option (List Text) :=
  if method = "Handle".toList then some ["WrapHandler".toList]
  else if method = "HandleFunc".toList then some ["WrapHandlerFunc".toList]
  else none

/-- The element of a literal with a wrapper taken off its handler field. -/
def handlerElement? (scope : Scope) : Expr → Option Expr
  | .keyed lead (.ident key) colon value tail =>
      if key = "Handler".toList then
        (scope.wrapped? handlerWrappers value).map fun inner =>
          .keyed lead (.ident key) colon inner tail
      else none
  | _ => none

/-- A literal with wrappers taken off its handler fields. -/
def handlerLiteral? (scope : Scope) : Expr → Option Expr
  | .literal lead type ⟨gap, items⟩ =>
      (changeItems (handlerElement? scope) items).map fun changed =>
        .literal lead type ⟨gap, changed⟩
  | .elements ⟨gap, items⟩ =>
      (changeItems (handlerElement? scope) items).map fun changed => .elements ⟨gap, changed⟩
  | _ => none

/-- A literal or the address of one, with wrappers taken off its handler fields. -/
def handlerField? (scope : Scope) : Expr → Option Expr
  | .other .unaryExpression ⟨lead, [⟨operand, gap⟩]⟩ =>
      if Text.trim lead = ['&'] then
        (handlerLiteral? scope operand).map fun changed =>
          .other .unaryExpression ⟨lead, [⟨changed, gap⟩]⟩
      else none
  | expr => handlerLiteral? scope expr

/-- An assigned value with a handler wrapper taken off. -/
def assignedHandler? (scope : Scope) (expr : Expr) : Option Expr :=
  match scope.wrapped? handlerWrappers expr with
  | some inner => some inner
  | none => handlerField? scope expr

/-- Take a wrapper off the values of an assignment. -/
def onValues (change : Expr → Option Expr) : Action → Option Action
  | .assignment targets ⟨gap, items⟩ =>
      (changeItems change items).map fun changed => .assignment targets ⟨gap, changed⟩
  | _ => none

/-- A rule for the actions of statements. -/
def ofActions (name : String) (onAction : Scope → Action → Option Action) : UnwrapRule :=
  ⟨name, onAction, fun _ _ => none⟩

/-- A rule for assigned values. -/
def ofValues (name : String) (change : Scope → Expr → Option Expr) : UnwrapRule :=
  ofActions name fun scope => onValues (change scope)

/-- A client wrapper that is assigned. -/
def client : UnwrapRule :=
  ofValues "client" fun scope => scope.wrapped? clientWrappers

/-- A handler wrapper that is registered. -/
def handlerExpr : UnwrapRule :=
  ofActions "handler-expr" fun scope action =>
    match action with
    | .expression lead (.call start (.selector before operand dot method behind)
        ⟨gap, [first, ⟨handler, last⟩]⟩) tail =>
        match registeredWrappers? method with
        | some names =>
            (scope.wrapped? names handler).map fun inner =>
              .expression lead (.call start (.selector before operand dot method behind)
                ⟨gap, [first, ⟨inner, last⟩]⟩) tail
        | none => none
    | _ => none

/-- A handler wrapper that is assigned, or a handler field of an assigned literal. -/
def handlerAssign : UnwrapRule :=
  ofValues "handler-assign" assignedHandler?

/-- A database wrapper as a statement or as an argument of one. -/
def sqlExpr : UnwrapRule :=
  ofActions "sql-expr" fun scope action =>
    match action with
    | .expression lead value tail =>
        match scope.wrapped? sqlWrappers value with
        | some inner => some (.expression lead inner tail)
        | none =>
            match value with
            | .call start callee ⟨gap, items⟩ =>
                (changeItems (scope.wrapped? sqlWrappers) items).map fun changed =>
                  .expression lead (.call start callee ⟨gap, changed⟩) tail
            | _ => none
    | _ => none

/-- A database wrapper that is assigned. -/
def sqlAssign : UnwrapRule :=
  ofValues "sql-assign" fun scope => scope.wrapped? sqlWrappers

/-- A database wrapper that is returned. -/
def sqlReturn : UnwrapRule :=
  ofActions "sql-return" fun scope action =>
    match action with
    | .results ⟨lead, items⟩ =>
        (changeItems (scope.wrapped? sqlWrappers) items).map fun changed =>
          .results ⟨lead, changed⟩
    | _ => none

/-- A connection wrapper anywhere in an expression. -/
def grpc : UnwrapRule :=
  ⟨"grpc", fun _ _ => none, fun scope => scope.wrapped? grpcWrappers⟩

/-- The rules that are tried by default, in order. -/
def all : List UnwrapRule :=
  [client, handlerExpr, handlerAssign, sqlExpr, sqlAssign, sqlReturn, grpc]

def ofName? (name : String) : Option UnwrapRule :=
  all.find? fun rule => rule.name == name

end UnwrapRule

/-- A rule that picks out whole statements. -/
structure StatementRule where
  /-- The name under which statements are counted. -/
  name : Text
  fits : Scope → Stmt Action → Bool

/-- The statements that no rule fits, and for each other statement the name of
the first rule that fits it. -/
def StatementRule.drop (scope : Scope) (rules : List StatementRule)
    (stmts : List (Stmt Action)) : List (Stmt Action) × List Text :=
  let first? (stmt : Stmt Action) := rules.find? fun rule => rule.fits scope stmt
  (stmts.filter fun stmt => (first? stmt).isNone,
    stmts.filterMap fun stmt => (first? stmt).map (·.name))

/-- A rule for statements that register a middleware of instrumentation. -/
structure MiddlewareRule where
  name : Text
  middleware : Text
  deriving Repr, DecidableEq

namespace MiddlewareRule

/-- The rules that are tried by default, in order. -/
def all : List MiddlewareRule :=
  [⟨"gin".toList, "GinMiddleware".toList⟩,
    ⟨"echo-v4".toList, "EchoV4Middleware".toList⟩,
    ⟨"chi-v5".toList, "ChiV5Middleware".toList⟩]

def ofName? (name : Text) : Option MiddlewareRule :=
  all.find? fun rule => rule.name = name

/-- What is registered: the callee of a call, or else the expression itself. -/
def target : Expr → Expr
  | .call _ callee _ => callee
  | expr => expr

/-- Whether an action registers the middleware of a rule with `Use`. -/
def fits (scope : Scope) (rule : MiddlewareRule) : Action → Bool
  | .expression _ (.call _ (.selector _ _ _ method _) ⟨_, [⟨argument, _⟩]⟩) _ =>
      method = "Use".toList && scope.refersTo [rule.middleware] (target argument)
  | _ => false

/-- The rule for whole statements that a middleware gives. -/
def toStatementRule (rule : MiddlewareRule) : StatementRule :=
  ⟨rule.name, fun scope stmt => rule.fits scope stmt.action⟩

/-- Drop the statements that register a middleware of one of several rules. -/
def drop (scope : Scope) (rules : List MiddlewareRule) (stmts : List (Stmt Action)) :
    List (Stmt Action) × List Text :=
  StatementRule.drop scope (rules.map toStatementRule) stmts

end MiddlewareRule

end Deinstrument
