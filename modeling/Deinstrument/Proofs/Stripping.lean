import Deinstrument.Code.Visit
import Deinstrument.Rule.Apply
import Mathlib.Logic.Relation

/-!
# Taking wrappers off

This module says what it means to take off one wrapper, anywhere in code, and what
that does to the text, to the number of places and to their depth. What each of the
usual rules does is a number of such steps side by side, at least one wherever the rule
fits, and the wrappers are those that the rule names.
-/

namespace Deinstrument

/-! ## Slots for expressions -/

/-- The kinds of code in which expressions stand. -/
inductive Part
  | expr
  | items
  | action
  | stmts

namespace Part

/-- What code of a kind is. -/
abbrev Code : Part → Type
  | .expr => Expr
  | .items => List (Spaced Expr)
  | .action => Action
  | .stmts => List (Stmt Action)

def print : (part : Part) → part.Code → Text
  | .expr => Expr.print
  | .items => printItems
  | .action => Action.print
  | .stmts => printStmts

def depth : (part : Part) → part.Code → Nat
  | .expr => Expr.depth
  | .items => depthItems
  | .action => Action.depth
  | .stmts => depthStmts

/-- The number of blocks, statements and expressions that a traversal meets. -/
def size : (part : Part) → part.Code → Nat
  | .expr => fun expr => expr.visits.length
  | .items => fun items => (visitsItems items).length
  | .action => fun action => action.visits.length
  | .stmts => fun stmts => (visitsStmts stmts).length

end Part

/-- The slots for an expression in code of a kind, at any depth. Each one is the
function that fills it; whatever else the code consists of stays the same. -/
inductive Slot : (part : Part) → (Expr → part.Code) → Prop
  | here : Slot .expr fun expr => expr
  | operand (lead dot name tail : Text) {fill : Expr → Expr} (slot : Slot .expr fill) :
      Slot .expr fun expr => .selector lead (fill expr) dot name tail
  | callee (lead : Text) (arguments : Row Expr) {fill : Expr → Expr} (slot : Slot .expr fill) :
      Slot .expr fun expr => .call lead (fill expr) arguments
  | arguments (lead : Text) (callee : Expr) (gap : Text) {fill : Expr → List (Spaced Expr)}
      (slot : Slot .items fill) : Slot .expr fun expr => .call lead callee ⟨gap, fill expr⟩
  | type (lead : Text) (elements : Row Expr) {fill : Expr → Expr} (slot : Slot .expr fill) :
      Slot .expr fun expr => .literal lead (fill expr) elements
  | typedElements (lead : Text) (type : Expr) (gap : Text) {fill : Expr → List (Spaced Expr)}
      (slot : Slot .items fill) : Slot .expr fun expr => .literal lead type ⟨gap, fill expr⟩
  | elements (gap : Text) {fill : Expr → List (Spaced Expr)} (slot : Slot .items fill) :
      Slot .expr fun expr => .elements ⟨gap, fill expr⟩
  | key (lead colon : Text) (value : Expr) (tail : Text) {fill : Expr → Expr}
      (slot : Slot .expr fill) : Slot .expr fun expr => .keyed lead (fill expr) colon value tail
  | value (lead : Text) (key : Expr) (colon tail : Text) {fill : Expr → Expr}
      (slot : Slot .expr fill) : Slot .expr fun expr => .keyed lead key colon (fill expr) tail
  | body (head opening closing : Text) {fill : Expr → List (Stmt Action)}
      (slot : Slot .stmts fill) :
      Slot .expr fun expr => .function head ⟨opening, fill expr, closing⟩
  | other (kind : Go.Kind) (gap : Text) {fill : Expr → List (Spaced Expr)}
      (slot : Slot .items fill) : Slot .expr fun expr => .other kind ⟨gap, fill expr⟩
  | item (front : List (Spaced Expr)) (gap : Text) (back : List (Spaced Expr))
      {fill : Expr → Expr} (slot : Slot .expr fill) :
      Slot .items fun expr => front ++ ⟨fill expr, gap⟩ :: back
  | expression (lead tail : Text) {fill : Expr → Expr} (slot : Slot .expr fill) :
      Slot .action fun expr => .expression lead (fill expr) tail
  | targets (lead : Text) (values : Row Expr) {fill : Expr → List (Spaced Expr)}
      (slot : Slot .items fill) : Slot .action fun expr => .assignment ⟨lead, fill expr⟩ values
  | values (targets : Row Expr) (gap : Text) {fill : Expr → List (Spaced Expr)}
      (slot : Slot .items fill) : Slot .action fun expr => .assignment targets ⟨gap, fill expr⟩
  | results (lead : Text) {fill : Expr → List (Spaced Expr)} (slot : Slot .items fill) :
      Slot .action fun expr => .results ⟨lead, fill expr⟩
  | stmt (front : List (Stmt Action)) (stmt : Stmt Action) (back : List (Stmt Action))
      {fill : Expr → Action} (slot : Slot .action fill) :
      Slot .stmts fun expr => front ++ { stmt with action := fill expr } :: back

theorem depthItems_append (front back : List (Spaced Expr)) :
    depthItems (front ++ back) = max (depthItems front) (depthItems back) := by
  induction front with
  | nil => simp [depthItems]
  | cons item rest ih => simp [depthItems, ih, Nat.max_assoc]

theorem depthStmts_append (front back : List (Stmt Action)) :
    depthStmts (front ++ back) = max (depthStmts front) (depthStmts back) := by
  induction front with
  | nil => simp [depthStmts]
  | cons stmt rest ih => simp [depthStmts, ih, Nat.max_assoc]

theorem visitsItems_append (front back : List (Spaced Expr)) :
    visitsItems (front ++ back) = visitsItems front ++ visitsItems back := by
  induction front with
  | nil => rfl
  | cons item rest ih => simp [visitsItems, ih]

theorem visitsStmts_append (front back : List (Stmt Action)) :
    visitsStmts (front ++ back) = visitsStmts front ++ visitsStmts back := by
  induction front with
  | nil => rfl
  | cons stmt rest ih => simp [visitsStmts, ih]

namespace Slot

variable {part : Part} {fill : Expr → part.Code}

/-- The text of code is that of the expression in a slot, with the same text around
it. -/
theorem print_sublist (slot : Slot part fill) {inner outer : Expr}
    (sublist : List.Sublist inner.print outer.print) :
    List.Sublist (part.print (fill inner)) (part.print (fill outer)) := by
  induction slot with
  | here => exact sublist
  | operand _ _ _ _ slot ih | callee _ _ slot ih | arguments _ _ _ slot ih | type _ _ slot ih
  | typedElements _ _ _ slot ih | elements _ slot ih | key _ _ _ _ slot ih
  | value _ _ _ _ slot ih | other _ _ slot ih => simpa [Part.print, Expr.print] using ih
  | body _ _ _ slot ih => simpa [Part.print, Expr.print, printBlock] using ih
  | item front _ _ slot ih => simpa [Part.print, printItems_eq, Row.textOf] using ih
  | expression _ _ slot ih | targets _ _ slot ih | values _ _ slot ih | results _ slot ih =>
      simpa [Part.print, Action.print] using ih
  | stmt front _ _ slot ih => simpa [Part.print, printStmts_eq, Stmt.print] using ih

theorem depth_le (slot : Slot part fill) {inner outer : Expr} (le : inner.depth ≤ outer.depth) :
    part.depth (fill inner) ≤ part.depth (fill outer) := by
  induction slot with
  | here => exact le
  | operand _ _ _ _ slot ih | callee _ _ slot ih | arguments _ _ _ slot ih | type _ _ slot ih
  | typedElements _ _ _ slot ih | elements _ slot ih | key _ _ _ _ slot ih
  | value _ _ _ _ slot ih | other _ _ slot ih =>
      simp only [Part.depth, Expr.depth] at ih ⊢
      omega
  | body _ _ _ slot ih =>
      simp only [Part.depth, Expr.depth, depthBlock] at ih ⊢
      omega
  | item front _ _ slot ih =>
      simp only [Part.depth, depthItems_append, depthItems] at ih ⊢
      omega
  | expression _ _ slot ih | targets _ _ slot ih | values _ _ slot ih | results _ slot ih =>
      simp only [Part.depth, Action.depth] at ih ⊢
      omega
  | stmt front _ _ slot ih =>
      simp only [Part.depth, depthStmts_append, depthStmts] at ih ⊢
      omega

theorem size_lt (slot : Slot part fill) {inner outer : Expr}
    (lt : inner.visits.length < outer.visits.length) :
    part.size (fill inner) < part.size (fill outer) := by
  induction slot with
  | here => exact lt
  | operand _ _ _ _ slot ih | callee _ _ slot ih | arguments _ _ _ slot ih | type _ _ slot ih
  | typedElements _ _ _ slot ih | elements _ slot ih | key _ _ _ _ slot ih
  | value _ _ _ _ slot ih | other _ _ slot ih =>
      simp only [Part.size, Expr.visits, List.length_cons, List.length_append] at ih ⊢
      omega
  | body _ _ _ slot ih =>
      simp only [Part.size, Expr.visits, visitsBlock, List.length_cons] at ih ⊢
      omega
  | item front _ _ slot ih =>
      simp only [Part.size, visitsItems_append, visitsItems, List.length_append] at ih ⊢
      omega
  | expression _ _ slot ih | targets _ _ slot ih | values _ _ slot ih | results _ slot ih =>
      simp only [Part.size, Action.visits, List.length_append] at ih ⊢
      omega
  | stmt front _ _ slot ih =>
      simp only [Part.size, visitsStmts_append, visitsStmts, List.length_append,
        List.length_cons] at ih ⊢
      omega

/-- A slot among items is one behind another item as well. -/
theorem laterItem {fill : Expr → List (Spaced Expr)} (first : Spaced Expr)
    (slot : Slot .items fill) : Slot .items fun expr => first :: fill expr := by
  cases slot with
  | item front gap back slot => exact .item (first :: front) gap back slot

theorem laterStmt {fill : Expr → List (Stmt Action)} (first : Stmt Action)
    (slot : Slot .stmts fill) : Slot .stmts fun expr => first :: fill expr := by
  cases slot with
  | stmt front stmt back slot => exact .stmt (first :: front) stmt back slot

end Slot

/-! ## Taking wrappers off -/

theorem Scope.refersTo_mono (scope : Scope) {names more : List Text} (subset : names ⊆ more)
    {code : Expr} (refers : scope.refersTo names code = true) :
    scope.refersTo more code = true := by
  unfold Scope.refersTo at refers ⊢
  split at refers
  · simp only [Bool.and_eq_true, List.contains_iff_mem] at refers ⊢
    exact ⟨subset refers.1, refers.2⟩
  · cases refers

/-- One wrapper is taken off: in a slot of the code stands the call of a function of
an instrumentation package, with one of several names and with one argument, and
the argument takes its place. -/
def Strips (scope : Scope) (names : List Text) (part : Part) (code changed : part.Code) : Prop :=
  ∃ fill, Slot part fill ∧ ∃ lead callee gap argument tail,
    scope.refersTo names callee = true ∧
    code = fill (.call lead callee ⟨gap, [⟨argument, tail⟩]⟩) ∧ changed = fill argument

/-- Wrappers are taken off, one after the other: at least one, or none at all if
the code is left idle. -/
inductive Unwraps (scope : Scope) (names : List Text) (part : Part) :
    Bool → part.Code → part.Code → Prop
  | idle (code : part.Code) : Unwraps scope names part true code code
  | taken {code changed : part.Code}
      (steps : Relation.TransGen (Strips scope names part) code changed) :
      Unwraps scope names part false code changed

section Steps

variable {scope : Scope} {names : List Text} {part : Part} {code middle changed : part.Code}

namespace Strips

theorem mono {more : List Text} (subset : names ⊆ more)
    (step : Strips scope names part code changed) : Strips scope more part code changed := by
  obtain ⟨fill, slot, lead, callee, gap, argument, tail, refers, hcode, hchanged⟩ := step
  exact ⟨fill, slot, lead, callee, gap, argument, tail, scope.refersTo_mono subset refers,
    hcode, hchanged⟩

/-- Wrappers inside of larger code. -/
theorem within (other : Part) (context : part.Code → other.Code)
    (slots : ∀ fill, Slot part fill → Slot other fun expr => context (fill expr))
    (step : Strips scope names part code changed) :
    Strips scope names other (context code) (context changed) := by
  obtain ⟨fill, slot, lead, callee, gap, argument, tail, refers, rfl, rfl⟩ := step
  exact ⟨_, slots fill slot, lead, callee, gap, argument, tail, refers, rfl, rfl⟩

/-- The text around the argument goes. -/
theorem print_sublist (step : Strips scope names part code changed) :
    List.Sublist (part.print changed) (part.print code) := by
  obtain ⟨fill, slot, lead, callee, gap, argument, tail, -, rfl, rfl⟩ := step
  refine slot.print_sublist ?_
  rw [Expr.print, printItems, printItems, List.append_nil]
  exact (List.sublist_append_left _ _).trans (List.sublist_append_right _ _)

theorem depth_le (step : Strips scope names part code changed) :
    part.depth changed ≤ part.depth code := by
  obtain ⟨fill, slot, lead, callee, gap, argument, tail, -, rfl, rfl⟩ := step
  refine slot.depth_le ?_
  simp only [Expr.depth, depthItems]
  omega

theorem size_lt (step : Strips scope names part code changed) :
    part.size changed < part.size code := by
  obtain ⟨fill, slot, lead, callee, gap, argument, tail, -, rfl, rfl⟩ := step
  refine slot.size_lt ?_
  simp only [Expr.visits, visitsItems, List.append_nil, List.length_cons, List.length_append]
  omega

end Strips

namespace Unwraps

variable {idle later : Bool}

theorem mono {more : List Text} (subset : names ⊆ more)
    (unwraps : Unwraps scope names part idle code changed) :
    Unwraps scope more part idle code changed := by
  cases unwraps with
  | idle => exact .idle code
  | taken steps => exact .taken (Relation.TransGen.mono (fun _ _ => Strips.mono subset) _ _ steps)

theorem trans (early : Unwraps scope names part idle code middle)
    (late : Unwraps scope names part later middle changed) :
    Unwraps scope names part (idle && later) code changed := by
  cases early with
  | idle => exact late
  | taken steps =>
      cases late with
      | idle => exact .taken steps
      | taken steps' => exact .taken (steps.trans steps')

/-- Wrappers inside of larger code. -/
theorem within (other : Part) (context : part.Code → other.Code)
    (slots : ∀ fill, Slot part fill → Slot other fun expr => context (fill expr))
    (unwraps : Unwraps scope names part idle code changed) :
    Unwraps scope names other idle (context code) (context changed) := by
  cases unwraps with
  | idle => exact .idle _
  | taken steps =>
      exact .taken
        (Relation.TransGen.lift context (fun _ _ => Strips.within other context slots) _ _ steps)

theorem reflTransGen (unwraps : Unwraps scope names part idle code changed) :
    Relation.ReflTransGen (Strips scope names part) code changed := by
  cases unwraps with
  | idle => exact .refl
  | taken steps => exact steps.to_reflTransGen

theorem print_sublist (unwraps : Unwraps scope names part idle code changed) :
    List.Sublist (part.print changed) (part.print code) := by
  have steps := unwraps.reflTransGen
  clear unwraps
  induction steps with
  | refl => exact .refl _
  | tail _ step ih => exact step.print_sublist.trans ih

theorem depth_le (unwraps : Unwraps scope names part idle code changed) :
    part.depth changed ≤ part.depth code := by
  have steps := unwraps.reflTransGen
  clear unwraps
  induction steps with
  | refl => exact Nat.le_refl _
  | tail _ step ih => exact Nat.le_trans step.depth_le ih

/-- Code is left as it is exactly if no wrapper is taken off. -/
theorem idle_iff (unwraps : Unwraps scope names part idle code changed) :
    idle = true ↔ changed = code := by
  cases unwraps with
  | idle => simp
  | taken steps =>
      -- Each step makes the code smaller, so that steps never lead back to where they began.
      have hless : part.size changed < part.size code := by
        induction steps with
        | single step => exact step.size_lt
        | tail _ step ih => exact Nat.lt_trans step.size_lt ih
      constructor
      · intro hidle
        cases hidle
      · intro same
        rw [same] at hless
        exact absurd hless (Nat.lt_irrefl _)

theorem items {value changed : Expr} {rest later : List (Spaced Expr)} {first idle : Bool}
    (here : Unwraps scope names .expr first value changed)
    (below : Unwraps scope names .items idle rest later) (gap : Text) :
    Unwraps scope names .items (first && idle) (⟨value, gap⟩ :: rest : List (Spaced Expr))
      (⟨changed, gap⟩ :: later : List (Spaced Expr)) := by
  have hhere : Unwraps scope names .items first (⟨value, gap⟩ :: rest : List (Spaced Expr))
      (⟨changed, gap⟩ :: rest : List (Spaced Expr)) :=
    here.within .items (fun expr => ⟨expr, gap⟩ :: rest) fun _ slot => .item [] gap rest slot
  have hbelow : Unwraps scope names .items idle (⟨changed, gap⟩ :: rest : List (Spaced Expr))
      (⟨changed, gap⟩ :: later : List (Spaced Expr)) :=
    below.within .items (⟨changed, gap⟩ :: ·) fun _ slot => slot.laterItem ⟨changed, gap⟩
  exact hhere.trans hbelow

theorem stmts {stmt : Stmt Action} {changed : Action} {rest later : List (Stmt Action)}
    {first idle : Bool} (here : Unwraps scope names .action first stmt.action changed)
    (below : Unwraps scope names .stmts idle rest later) :
    Unwraps scope names .stmts (first && idle) (stmt :: rest : List (Stmt Action))
      ({ stmt with action := changed } :: later : List (Stmt Action)) := by
  have hhere : Unwraps scope names .stmts first (stmt :: rest : List (Stmt Action))
      ({ stmt with action := changed } :: rest : List (Stmt Action)) :=
    here.within .stmts (fun action => { stmt with action } :: rest) fun _ slot =>
      .stmt [] stmt rest slot
  have hbelow : Unwraps scope names .stmts idle
      ({ stmt with action := changed } :: rest : List (Stmt Action))
      ({ stmt with action := changed } :: later : List (Stmt Action)) :=
    below.within .stmts ({ stmt with action := changed } :: ·) fun _ slot =>
      slot.laterStmt { stmt with action := changed }
  exact hhere.trans hbelow

end Unwraps

end Steps

/-! ## Wrappers side by side -/

/-- So many wrappers are taken off code side by side: none of them stands in another one
of them or in the body of a function value. -/
inductive Peels (scope : Scope) (names : List Text) :
    (part : Part) → Nat → part.Code → part.Code → Prop
  | idle {part : Part} (code : part.Code) : Peels scope names part 0 code code
  | wrapper (lead : Text) {callee : Expr} (refers : scope.refersTo names callee = true)
      (gap : Text) (argument : Expr) (tail : Text) :
      Peels scope names .expr 1 (.call lead callee ⟨gap, [⟨argument, tail⟩]⟩ : Expr) argument
  | arguments (lead : Text) (callee : Expr) (gap : Text) {number : Nat}
      {items changed : List (Spaced Expr)} (peels : Peels scope names .items number items changed) :
      Peels scope names .expr number (.call lead callee ⟨gap, items⟩ : Expr)
        (.call lead callee ⟨gap, changed⟩ : Expr)
  | typedElements (lead : Text) (type : Expr) (gap : Text) {number : Nat}
      {items changed : List (Spaced Expr)} (peels : Peels scope names .items number items changed) :
      Peels scope names .expr number (.literal lead type ⟨gap, items⟩ : Expr)
        (.literal lead type ⟨gap, changed⟩ : Expr)
  | elements (gap : Text) {number : Nat} {items changed : List (Spaced Expr)}
      (peels : Peels scope names .items number items changed) :
      Peels scope names .expr number (.elements ⟨gap, items⟩ : Expr)
        (.elements ⟨gap, changed⟩ : Expr)
  | value (lead : Text) (key : Expr) (colon : Text) (tail : Text) {number : Nat}
      {value changed : Expr} (peels : Peels scope names .expr number value changed) :
      Peels scope names .expr number (.keyed lead key colon value tail : Expr)
        (.keyed lead key colon changed tail : Expr)
  | other (kind : Go.Kind) (gap : Text) {number : Nat} {items changed : List (Spaced Expr)}
      (peels : Peels scope names .items number items changed) :
      Peels scope names .expr number (.other kind ⟨gap, items⟩ : Expr)
        (.other kind ⟨gap, changed⟩ : Expr)
  | item {first number : Nat} {value changed : Expr} {rest later : List (Spaced Expr)}
      (peels : Peels scope names .expr first value changed) (gap : Text)
      (further : Peels scope names .items number rest later) :
      Peels scope names .items (first + number) (⟨value, gap⟩ :: rest : List (Spaced Expr))
        (⟨changed, gap⟩ :: later : List (Spaced Expr))
  | expression (lead tail : Text) {number : Nat} {value changed : Expr}
      (peels : Peels scope names .expr number value changed) :
      Peels scope names .action number (.expression lead value tail : Action)
        (.expression lead changed tail : Action)
  | values (targets : Row Expr) (gap : Text) {number : Nat} {items changed : List (Spaced Expr)}
      (peels : Peels scope names .items number items changed) :
      Peels scope names .action number (.assignment targets ⟨gap, items⟩ : Action)
        (.assignment targets ⟨gap, changed⟩ : Action)
  | results (lead : Text) {number : Nat} {items changed : List (Spaced Expr)}
      (peels : Peels scope names .items number items changed) :
      Peels scope names .action number (.results ⟨lead, items⟩ : Action)
        (.results ⟨lead, changed⟩ : Action)

/-- Wrappers side by side can be taken off one after the other. -/
theorem Peels.unwraps {scope : Scope} {names : List Text} {part : Part} {number : Nat}
    {code changed : part.Code} (peels : Peels scope names part number code changed) :
    Unwraps scope names part (number == 0) code changed := by
  induction peels with
  | idle code => exact .idle code
  | wrapper lead refers gap argument tail =>
      exact .taken (.single ⟨_, .here, lead, _, gap, argument, tail, refers, rfl, rfl⟩)
  | arguments lead callee gap _ ih =>
      exact ih.within .expr (fun items => .call lead callee ⟨gap, items⟩)
        fun _ slot => .arguments lead callee gap slot
  | typedElements lead type gap _ ih =>
      exact ih.within .expr (fun items => .literal lead type ⟨gap, items⟩)
        fun _ slot => .typedElements lead type gap slot
  | elements gap _ ih =>
      exact ih.within .expr (fun items => .elements ⟨gap, items⟩) fun _ slot => .elements gap slot
  | value lead key colon tail _ ih =>
      exact ih.within .expr (fun value => .keyed lead key colon value tail)
        fun _ slot => .value lead key colon tail slot
  | other kind gap _ ih =>
      exact ih.within .expr (fun items => .other kind ⟨gap, items⟩)
        fun _ slot => .other kind gap slot
  | @item first number _ _ _ _ _ gap _ ih ihLater =>
      have hnone : (first + number == 0) = (first == 0 && number == 0) := by
        rw [Bool.eq_iff_iff]
        simp
      exact hnone ▸ ih.items ihLater gap
  | expression lead tail _ ih =>
      exact ih.within .action (fun value => .expression lead value tail)
        fun _ slot => .expression lead tail slot
  | values targets gap _ ih =>
      exact ih.within .action (fun items => .assignment targets ⟨gap, items⟩)
        fun _ slot => .values targets gap slot
  | results lead _ ih =>
      exact ih.within .action (fun items => .results ⟨lead, items⟩)
        fun _ slot => .results lead slot

/-! ## Rules -/

/-- A change takes wrappers off, at least one from whatever it changes. -/
def TakesOff (scope : Scope) (names : List Text) (part : Part)
    (change : part.Code → Option part.Code) : Prop :=
  ∀ code changed, change code = some changed → Unwraps scope names part false code changed

/-- A change takes wrappers off side by side, at least one from whatever it changes. -/
def PeelsOff (scope : Scope) (names : List Text) (part : Part)
    (change : part.Code → Option part.Code) : Prop :=
  ∀ code changed, change code = some changed →
    ∃ number, 0 < number ∧ Peels scope names part number code changed

theorem PeelsOff.takesOff {scope : Scope} {names : List Text} {part : Part}
    {change : part.Code → Option part.Code} (peels : PeelsOff scope names part change) :
    TakesOff scope names part change := by
  intro code changed hchanged
  obtain ⟨number, pos, peeled⟩ := peels code changed hchanged
  have hsome : (number == 0) = false := beq_false_of_ne (Nat.ne_of_gt pos)
  exact hsome ▸ peeled.unwraps

namespace UnwrapRule

/-- The wrappers that the usual rule of a name takes off. -/
def wrappers (rule : UnwrapRule) : List Text :=
  match rule.name with
  | "client" => clientWrappers
  | "handler-expr" | "handler-assign" => handlerWrappers
  | "sql-expr" | "sql-assign" | "sql-return" => sqlWrappers
  | "grpc" => grpcWrappers
  | _ => []

section Rules

variable {scope : Scope} {names : List Text}

/-- A wrapper with one of several names has one of more names. -/
theorem peels_of_wrapped? {more : List Text} (subset : names ⊆ more) {code inner : Expr}
    (wrapped : scope.wrapped? names code = some inner) :
    Peels scope more .expr 1 code inner := by
  unfold Scope.wrapped? at wrapped
  split at wrapped
  next lead callee gap _ tail =>
    split at wrapped
    next refers =>
      cases wrapped
      exact .wrapper lead (scope.refersTo_mono subset refers) gap inner tail
    next => cases wrapped
  next => cases wrapped

theorem peelsOff_wrapped? (scope : Scope) (names : List Text) :
    PeelsOff scope names .expr (scope.wrapped? names) :=
  fun _ _ wrapped => ⟨1, Nat.one_pos, peels_of_wrapped? (List.Subset.refl names) wrapped⟩

theorem peelsOff_changeItems {change : Expr → Option Expr}
    (takes : PeelsOff scope names .expr change) :
    PeelsOff scope names .items (changeItems change) := by
  -- Where no item changes, no wrapper is taken off: the induction needs that case as well.
  have hwalk : ∀ items : List (Spaced Expr), ∃ number,
      ((items.any fun item => (change item.value).isSome) = true → 0 < number) ∧
      Peels scope names .items number items
        (items.map fun item => ⟨(change item.value).getD item.value, item.gap⟩) := by
    intro items
    induction items with
    | nil => exact ⟨0, nofun, .idle _⟩
    | cons item rest ih =>
        obtain ⟨number, pos, peels⟩ := ih
        rw [List.any_cons, List.map_cons]
        cases hchange : change item.value with
        | none => exact ⟨0 + number, by simpa using pos, .item (.idle _) item.gap peels⟩
        | some changed =>
            obtain ⟨first, hfirst, hpeels⟩ := takes _ _ hchange
            exact ⟨first + number, fun _ => Nat.add_pos_left hfirst _,
              .item hpeels item.gap peels⟩
  intro items changed hchanged
  unfold changeItems at hchanged
  split at hchanged
  next some_changes =>
    cases hchanged
    obtain ⟨number, pos, peels⟩ := hwalk items
    exact ⟨number, pos some_changes, peels⟩
  next => cases hchanged

theorem peelsOff_onValues {change : Expr → Option Expr}
    (takes : PeelsOff scope names .expr change) :
    PeelsOff scope names .action (onValues change) := by
  intro action changed hchanged
  unfold onValues at hchanged
  split at hchanged
  next targets gap items =>
    obtain ⟨values, hvalues, rfl⟩ := Option.map_eq_some_iff.mp hchanged
    obtain ⟨number, pos, peels⟩ := peelsOff_changeItems takes items values hvalues
    exact ⟨number, pos, .values targets gap peels⟩
  next => cases hchanged

theorem peelsOff_handlerElement? :
    PeelsOff scope handlerWrappers .expr (handlerElement? scope) := by
  intro element changed hchanged
  unfold handlerElement? at hchanged
  split at hchanged
  next lead key colon value tail =>
    split at hchanged
    next =>
      obtain ⟨inner, hinner, rfl⟩ := Option.map_eq_some_iff.mp hchanged
      obtain ⟨number, pos, peels⟩ := peelsOff_wrapped? scope handlerWrappers value inner hinner
      exact ⟨number, pos, .value lead (.ident key) colon tail peels⟩
    next => cases hchanged
  next => cases hchanged

theorem peelsOff_handlerLiteral? :
    PeelsOff scope handlerWrappers .expr (handlerLiteral? scope) := by
  have items := peelsOff_changeItems (@peelsOff_handlerElement? scope)
  intro expr changed hchanged
  unfold handlerLiteral? at hchanged
  split at hchanged
  next lead type gap elements =>
    obtain ⟨inner, hinner, rfl⟩ := Option.map_eq_some_iff.mp hchanged
    obtain ⟨number, pos, peels⟩ := items elements inner hinner
    exact ⟨number, pos, .typedElements lead type gap peels⟩
  next gap elements =>
    obtain ⟨inner, hinner, rfl⟩ := Option.map_eq_some_iff.mp hchanged
    obtain ⟨number, pos, peels⟩ := items elements inner hinner
    exact ⟨number, pos, .elements gap peels⟩
  next => cases hchanged

theorem peelsOff_assignedHandler? :
    PeelsOff scope handlerWrappers .expr (assignedHandler? scope) := by
  intro expr changed hchanged
  unfold assignedHandler? at hchanged
  split at hchanged
  next inner hinner =>
    rw [← Option.some.inj hchanged]
    exact peelsOff_wrapped? scope handlerWrappers expr inner hinner
  next =>
    unfold handlerField? at hchanged
    split at hchanged
    next lead operand gap _ =>
      split at hchanged
      next =>
        obtain ⟨literal, hliteral, rfl⟩ := Option.map_eq_some_iff.mp hchanged
        obtain ⟨number, pos, peels⟩ := peelsOff_handlerLiteral? operand literal hliteral
        exact ⟨number, pos, .other .unaryExpression lead (.item peels gap (.idle _))⟩
      next => cases hchanged
    next => exact peelsOff_handlerLiteral? expr changed hchanged

/-- The wrappers that fit a method are handler wrappers. -/
theorem registeredWrappers?_subset {method : Text} {names : List Text}
    (registered : registeredWrappers? method = some names) : names ⊆ handlerWrappers := by
  unfold registeredWrappers? at registered
  split at registered
  · cases registered
    decide
  · split at registered
    · cases registered
      decide
    · cases registered

theorem peelsOff_handlerExpr :
    PeelsOff scope handlerWrappers .action (handlerExpr.onAction scope) := by
  intro action changed hchanged
  simp only [handlerExpr, ofActions] at hchanged
  split at hchanged
  next lead start before operand dot method behind gap first handler last tail =>
    split at hchanged
    next names registered =>
      obtain ⟨inner, hinner, rfl⟩ := Option.map_eq_some_iff.mp hchanged
      have hhandler : Peels scope handlerWrappers .expr 1 handler inner :=
        peels_of_wrapped? (registeredWrappers?_subset registered) hinner
      exact ⟨1, Nat.one_pos, .expression lead tail (.arguments start _ gap
        (.item (.idle _) _ (.item hhandler last (.idle _))))⟩
    next => cases hchanged
  next => cases hchanged

theorem peelsOff_sqlExpr : PeelsOff scope sqlWrappers .action (sqlExpr.onAction scope) := by
  intro action changed hchanged
  simp only [sqlExpr, ofActions] at hchanged
  split at hchanged
  next lead value tail =>
    split at hchanged
    next inner hinner =>
      cases hchanged
      obtain ⟨number, pos, peels⟩ := peelsOff_wrapped? scope sqlWrappers value inner hinner
      exact ⟨number, pos, .expression lead tail peels⟩
    next =>
      split at hchanged
      next start callee gap items _ =>
        obtain ⟨arguments, harguments, rfl⟩ := Option.map_eq_some_iff.mp hchanged
        obtain ⟨number, pos, peels⟩ := peelsOff_changeItems (peelsOff_wrapped? scope sqlWrappers)
          items arguments harguments
        exact ⟨number, pos, .expression lead tail (.arguments start callee gap peels)⟩
      next => cases hchanged
  next => cases hchanged

theorem peelsOff_sqlReturn : PeelsOff scope sqlWrappers .action (sqlReturn.onAction scope) := by
  intro action changed hchanged
  simp only [sqlReturn, ofActions] at hchanged
  split at hchanged
  next lead items =>
    obtain ⟨results, hresults, rfl⟩ := Option.map_eq_some_iff.mp hchanged
    obtain ⟨number, pos, peels⟩ := peelsOff_changeItems (peelsOff_wrapped? scope sqlWrappers)
      items results hresults
    exact ⟨number, pos, .results lead peels⟩
  next => cases hchanged

/-- A usual rule takes its own wrappers off actions. -/
theorem peelsOff_onAction (scope : Scope) {rule : UnwrapRule} (usual : rule ∈ all) :
    PeelsOff scope rule.wrappers .action (rule.onAction scope) := by
  simp only [all, List.mem_cons, List.not_mem_nil, or_false] at usual
  obtain rfl | rfl | rfl | rfl | rfl | rfl | rfl := usual
  · exact peelsOff_onValues (peelsOff_wrapped? scope clientWrappers)
  · exact peelsOff_handlerExpr
  · exact peelsOff_onValues peelsOff_assignedHandler?
  · exact peelsOff_sqlExpr
  · exact peelsOff_onValues (peelsOff_wrapped? scope sqlWrappers)
  · exact peelsOff_sqlReturn
  · intro action changed hchanged
    cases hchanged

/-- A usual rule takes one of its own wrappers off an expression. -/
theorem peels_of_onExpr {rule : UnwrapRule} (usual : rule ∈ all) {code changed : Expr}
    (hchanged : rule.onExpr scope code = some changed) :
    Peels scope rule.wrappers .expr 1 code changed := by
  simp only [all, List.mem_cons, List.not_mem_nil, or_false] at usual
  obtain rfl | rfl | rfl | rfl | rfl | rfl | rfl := usual
  case inr.inr.inr.inr.inr.inr => exact peels_of_wrapped? (List.Subset.refl _) hchanged
  all_goals cases hchanged

theorem takesOff_onAction (scope : Scope) {rule : UnwrapRule} (usual : rule ∈ all) :
    TakesOff scope rule.wrappers .action (rule.onAction scope) :=
  (peelsOff_onAction scope usual).takesOff

theorem takesOff_onExpr (scope : Scope) {rule : UnwrapRule} (usual : rule ∈ all) :
    TakesOff scope rule.wrappers .expr (rule.onExpr scope) :=
  fun _ _ hchanged => (peels_of_onExpr usual hchanged).unwraps

end Rules

end UnwrapRule

end Deinstrument
