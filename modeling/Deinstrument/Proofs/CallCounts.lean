import Deinstrument.Proofs.Connections
import Mathlib.Algebra.BigOperators.Group.List.Basic
import Mathlib.Algebra.GroupWithZero.Nat
import Mathlib.Data.List.Chain

/-!
# Counting calls that are taken off

A rule is counted once for each statement or expression that it is applied to, but it
takes a wrapper off each place in a statement that it knows: all values of an
assignment, all arguments of a call, all results, all handler fields of a literal. So
the counts fall short of the calls that are gone, by one for each wrapper behind the
first one in a statement. Each statement is met by the walk as it stands in the source,
since rules take nothing off the bodies of function values before the walk gets there.
-/

namespace Deinstrument

/-! ## Weights -/

namespace Visit

/-- Whether a call was met. -/
def isCall : Visit → Bool
  | .expr (.call ..) => true
  | _ => false

/-- The statement that was met, if it was one. -/
def stmt? : Visit → Option (Stmt Action)
  | .stmt met => some met
  | _ => none

/-- A weight for calls, all of them alike, and one for statements by what they do. -/
def weight (cost : Nat) (onAction : Action → Nat) : Visit → Nat
  | .stmt met => onAction met.action
  | .expr (.call ..) => cost
  | _ => 0

end Visit

/-- The statements among statements and in the bodies of function values in them, at any
depth. -/
def metStmts (stmts : List (Stmt Action)) : List (Stmt Action) :=
  (visitsStmts stmts).filterMap Visit.stmt?

namespace Part

def visits : (part : Part) → part.Code → List Visit
  | .expr => Expr.visits
  | .items => visitsItems
  | .action => Action.visits
  | .stmts => visitsStmts

/-- The number of calls in code, at any depth. -/
def calls (part : Part) (code : part.Code) : Nat :=
  (part.visits code).countP Visit.isCall

/-- The weight of everything that a traversal meets in code. -/
def weight (cost : Nat) (onAction : Action → Nat) (part : Part) (code : part.Code) : Nat :=
  ((part.visits code).map (Visit.weight cost onAction)).sum

/-- Calls are counted where statements have no weight. -/
theorem weight_eq_calls (part : Part) (code : part.Code) :
    part.weight 1 (fun _ => 0) code = part.calls code := by
  rw [weight, calls]
  induction part.visits code with
  | nil => rfl
  | cons visit rest ih =>
      rw [List.map_cons, List.sum_cons, List.countP_cons, ih, Nat.add_comm]
      rcases visit with block | stmt | code
      · rfl
      · rfl
      · cases code <;> rfl

end Part

/-- Statements are summed up where calls have no weight. -/
theorem weight_eq_sum_metStmts (onAction : Action → Nat) (stmts : List (Stmt Action)) :
    Part.stmts.weight 0 onAction stmts =
      ((metStmts stmts).map fun stmt => onAction stmt.action).sum := by
  simp only [Part.weight, Part.visits, metStmts]
  induction visitsStmts stmts with
  | nil => rfl
  | cons visit rest ih =>
      rw [List.map_cons, List.sum_cons, ih]
      rcases visit with block | stmt | code
      · exact Nat.zero_add _
      · rfl
      · cases code <;> exact Nat.zero_add _

section Equations

variable {cost : Nat} {onAction : Action → Nat}

@[simp]
theorem weight_ident (name : Text) : Part.expr.weight cost onAction (.ident name : Expr) = 0 :=
  rfl

@[simp]
theorem weight_selector (lead : Text) (operand : Expr) (dot name tail : Text) :
    Part.expr.weight cost onAction (.selector lead operand dot name tail : Expr) =
      Part.expr.weight cost onAction operand := by
  simp [Part.weight, Part.visits, Expr.visits, Visit.weight]

@[simp]
theorem weight_call (lead : Text) (callee : Expr) (arguments : Row Expr) :
    Part.expr.weight cost onAction (.call lead callee arguments : Expr) =
      cost + (Part.expr.weight cost onAction callee +
        Part.items.weight cost onAction arguments.items) := by
  simp [Part.weight, Part.visits, Expr.visits, Visit.weight]

@[simp]
theorem weight_literal (lead : Text) (type : Expr) (elements : Row Expr) :
    Part.expr.weight cost onAction (.literal lead type elements : Expr) =
      Part.expr.weight cost onAction type + Part.items.weight cost onAction elements.items := by
  simp [Part.weight, Part.visits, Expr.visits, Visit.weight]

@[simp]
theorem weight_elements (row : Row Expr) :
    Part.expr.weight cost onAction (.elements row : Expr) =
      Part.items.weight cost onAction row.items := by
  simp [Part.weight, Part.visits, Expr.visits, Visit.weight]

@[simp]
theorem weight_keyed (lead : Text) (key : Expr) (colon : Text) (value : Expr) (tail : Text) :
    Part.expr.weight cost onAction (.keyed lead key colon value tail : Expr) =
      Part.expr.weight cost onAction key + Part.expr.weight cost onAction value := by
  simp [Part.weight, Part.visits, Expr.visits, Visit.weight]

@[simp]
theorem weight_function (head : Text) (body : Block Action) :
    Part.expr.weight cost onAction (.function head body : Expr) =
      Part.stmts.weight cost onAction body.stmts := by
  obtain ⟨opening, stmts, closing⟩ := body
  simp [Part.weight, Part.visits, Expr.visits, visitsBlock, Visit.weight]

@[simp]
theorem weight_other (kind : Go.Kind) (row : Row Expr) :
    Part.expr.weight cost onAction (.other kind row : Expr) =
      Part.items.weight cost onAction row.items := by
  simp [Part.weight, Part.visits, Expr.visits, Visit.weight]

@[simp]
theorem weight_nil : Part.items.weight cost onAction ([] : List (Spaced Expr)) = 0 :=
  rfl

@[simp]
theorem weight_cons (item : Spaced Expr) (rest : List (Spaced Expr)) :
    Part.items.weight cost onAction (item :: rest : List (Spaced Expr)) =
      Part.expr.weight cost onAction item.value + Part.items.weight cost onAction rest := by
  simp [Part.weight, Part.visits, visitsItems]

@[simp]
theorem weight_append (front back : List (Spaced Expr)) :
    Part.items.weight cost onAction (front ++ back : List (Spaced Expr)) =
      Part.items.weight cost onAction front + Part.items.weight cost onAction back := by
  simp [Part.weight, Part.visits, visitsItems_append]

@[simp]
theorem weight_expression (lead : Text) (value : Expr) (tail : Text) :
    Part.action.weight cost onAction (.expression lead value tail : Action) =
      Part.expr.weight cost onAction value :=
  rfl

@[simp]
theorem weight_assignment (targets values : Row Expr) :
    Part.action.weight cost onAction (.assignment targets values : Action) =
      Part.items.weight cost onAction targets.items +
        Part.items.weight cost onAction values.items := by
  simp [Part.weight, Part.visits, Action.visits]

@[simp]
theorem weight_results (row : Row Expr) :
    Part.action.weight cost onAction (.results row : Action) =
      Part.items.weight cost onAction row.items :=
  rfl

@[simp]
theorem weight_verbatim (text : Text) :
    Part.action.weight cost onAction (.verbatim text : Action) = 0 :=
  rfl

@[simp]
theorem weight_stmts_cons (stmt : Stmt Action) (rest : List (Stmt Action)) :
    Part.stmts.weight cost onAction (stmt :: rest : List (Stmt Action)) =
      onAction stmt.action + Part.action.weight cost onAction stmt.action +
        Part.stmts.weight cost onAction rest := by
  simp [Part.weight, Part.visits, visitsStmts, Visit.weight, Nat.add_assoc]

@[simp]
theorem weight_stmts_append (front back : List (Stmt Action)) :
    Part.stmts.weight cost onAction (front ++ back : List (Stmt Action)) =
      Part.stmts.weight cost onAction front + Part.stmts.weight cost onAction back := by
  simp [Part.weight, Part.visits, visitsStmts_append]

end Equations

/-! ## Wrappers one after the other -/

/-- Calls that go from a slot go from the code around it. -/
theorem Slot.calls_eq {part : Part} {fill : Expr → part.Code} (slot : Slot part fill)
    {number : Nat} {inner outer : Expr}
    (fewer : Part.expr.calls outer = Part.expr.calls inner + number) :
    part.calls (fill outer) = part.calls (fill inner) + number := by
  simp only [← Part.weight_eq_calls] at fewer ⊢
  induction slot with
  | here => exact fewer
  | operand _ _ _ _ slot ih | body _ _ _ slot ih | elements _ slot ih | other _ _ slot ih =>
      simpa using ih
  | callee _ _ slot ih | arguments _ _ _ slot ih | type _ _ slot ih | typedElements _ _ _ slot ih
  | key _ _ _ _ slot ih | value _ _ _ _ slot ih =>
      simp only [weight_call, weight_literal, weight_keyed]
      omega
  | item front _ _ slot ih =>
      simp only [weight_append, weight_cons]
      omega
  | expression _ _ slot ih | results _ slot ih => simpa using ih
  | targets _ _ slot ih | values _ _ slot ih =>
      simp only [weight_assignment]
      omega
  | stmt front _ _ slot ih =>
      simp only [weight_stmts_append, weight_stmts_cons]
      omega

section Steps

variable {scope : Scope} {names : List Text}

/-- A wrapper weighs one call more than what is in it: what is called holds no call. -/
theorem weight_wrapper {callee : Expr} (refers : scope.refersTo names callee = true)
    (cost : Nat) (onAction : Action → Nat) (lead gap : Text) (argument : Expr) (tail : Text) :
    Part.expr.weight cost onAction (.call lead callee ⟨gap, [⟨argument, tail⟩]⟩ : Expr) =
      Part.expr.weight cost onAction argument + cost := by
  obtain ⟨start, package, dot, name, behind, rfl⟩ := UnwrapRule.exists_selector refers
  simp only [weight_call, weight_selector, weight_ident, weight_cons, weight_nil]
  omega

/-- Each wrapper that is taken off is one call less. -/
theorem Strips.calls_eq {part : Part} {code changed : part.Code}
    (step : Strips scope names part code changed) :
    part.calls code = part.calls changed + 1 := by
  obtain ⟨fill, slot, lead, callee, gap, argument, tail, refers, rfl, rfl⟩ := step
  refine slot.calls_eq ?_
  rw [← Part.weight_eq_calls, ← Part.weight_eq_calls, weight_wrapper refers]

/-- So many wrappers are taken off one after the other as there are calls less. -/
theorem calls_eq_of_isChain {part : Part} {code : part.Code} {states : List part.Code}
    (steps : List.IsChain (Strips scope names part) (code :: states)) :
    part.calls code =
      part.calls ((code :: states).getLast (List.cons_ne_nil _ _)) + states.length := by
  induction states generalizing code with
  | nil => rfl
  | cons next rest ih =>
      obtain ⟨step, later⟩ := List.isChain_cons_cons.mp steps
      rw [step.calls_eq, ih later, List.getLast_cons (List.cons_ne_nil _ _), List.length_cons]
      omega

/-- Wrappers that are taken off side by side are as many calls less, and whatever
statements stand in the code stay as they are. -/
theorem Peels.weight_eq {part : Part} {number : Nat} {code changed : part.Code}
    (peels : Peels scope names part number code changed) (cost : Nat) (onAction : Action → Nat) :
    part.weight cost onAction code = part.weight cost onAction changed + cost * number := by
  induction peels with
  | idle code => rw [Nat.mul_zero, Nat.add_zero]
  | wrapper lead refers gap argument tail => rw [weight_wrapper refers, Nat.mul_one]
  | arguments _ _ _ _ ih | typedElements _ _ _ _ ih | value _ _ _ _ _ ih =>
      simp only [weight_call, weight_literal, weight_keyed, ih]
      omega
  | elements _ _ ih | other _ _ _ ih | expression _ _ _ ih | results _ _ ih => simpa using ih
  | item _ _ _ ih ihLater =>
      simp only [weight_cons, ih, ihLater, Nat.mul_add]
      omega
  | values _ _ _ ih =>
      simp only [weight_assignment, ih]
      omega

end Steps

/-! ## The walk -/

namespace Stop

/-- The weight of everything that is met from a place on, the place itself included. -/
def weight (cost : Nat) (onAction : Action → Nat) : Stop → Nat
  | .expr code => Part.expr.weight cost onAction code
  | .action code => onAction code + Part.action.weight cost onAction code

/-- The weight of a place without its parts. -/
def ownWeight (cost : Nat) (onAction : Action → Nat) : Stop → Nat
  | .expr (.call ..) => cost
  | .expr _ => 0
  | .action code => onAction code

/-- How often a rule is used from a place on. -/
def used (onExpr : Expr → Expr × List UnwrapRule) (onAction : Action → Action × List UnwrapRule) :
    Stop → Nat
  | .expr code => (onExpr code).2.length
  | .action code => (onAction code).2.length

section Weight

variable {cost : Nat} {onAction : Action → Nat}

theorem weight_expr (code : Expr) :
    (expr code).weight cost onAction = Part.expr.weight cost onAction code :=
  rfl

theorem weight_action (code : Action) :
    (action code).weight cost onAction = onAction code + Part.action.weight cost onAction code :=
  rfl

theorem weight_items (items : List (Spaced Expr)) :
    Part.items.weight cost onAction items =
      ((ofItems items).map (weight cost onAction)).sum := by
  induction items with
  | nil => rfl
  | cons item rest ih =>
      rw [weight_cons, ih]
      rfl

theorem weight_stmts (stmts : List (Stmt Action)) :
    Part.stmts.weight cost onAction stmts =
      ((ofStmts stmts).map (weight cost onAction)).sum := by
  induction stmts with
  | nil => rfl
  | cons stmt rest ih =>
      rw [weight_stmts_cons, ih]
      rfl

/-- A place weighs as much as its parts, apart from what it weighs itself. -/
theorem weight_eq_add_sum (cost : Nat) (onAction : Action → Nat) (place : Stop) :
    place.weight cost onAction =
      place.ownWeight cost onAction + (place.parts.map (weight cost onAction)).sum := by
  rcases place with code | code
  · cases code <;> simp [weight, ownWeight, parts, weight_items, weight_stmts]
  · cases code <;> simp [weight, ownWeight, parts, weight_items]

theorem ownWeight_expr_zero (code : Expr) : (expr code).ownWeight 0 onAction = 0 := by
  cases code <;> rfl

end Weight

end Stop

namespace UnwrapRule

section Used

variable {onExpr : Expr → Expr × List UnwrapRule} {onAction : Action → Action × List UnwrapRule}

theorem length_mapItems (onAction : Action → Action × List UnwrapRule)
    (items : List (Spaced Expr)) :
    (mapItems onExpr items).2.length =
      ((Stop.ofItems items).map (Stop.used onExpr onAction)).sum := by
  induction items with
  | nil => rfl
  | cons item rest ih =>
      simp only [mapItems, List.length_append, ih]
      rfl

theorem length_mapStmts (onExpr : Expr → Expr × List UnwrapRule) (stmts : List (Stmt Action)) :
    (mapStmts onAction stmts).2.length =
      ((Stop.ofStmts stmts).map (Stop.used onExpr onAction)).sum := by
  induction stmts with
  | nil => rfl
  | cons stmt rest ih =>
      simp only [mapStmts, List.length_append, ih]
      rfl

theorem length_belowExpr (code : Expr) :
    (belowExpr onExpr onAction code).2.length =
      ((Stop.expr code).parts.map (Stop.used onExpr onAction)).sum := by
  cases code <;>
    simp [belowExpr, Stop.parts, Stop.used, length_mapItems onAction, length_mapStmts onExpr]

theorem length_belowAction (onAction : Action → Action × List UnwrapRule) (code : Action) :
    (belowAction onExpr code).2.length =
      ((Stop.action code).parts.map (Stop.used onExpr onAction)).sum := by
  cases code <;> simp [belowAction, Stop.parts, Stop.used, length_mapItems onAction]

end Used

/-- The number of calls that the first usual rule that fits takes off an action. -/
def takenOff (scope : Scope) (code : Action) : Nat :=
  Part.action.calls code - Part.action.calls (firstChange (·.onAction scope) all code).1

/-- The number of calls that it takes off and does not count. -/
def surplus (scope : Scope) (code : Action) : Nat :=
  takenOff scope code - 1

theorem weight_firstChange_onExpr (scope : Scope) (cost : Nat) (onAction : Action → Nat)
    (code : Expr) :
    let result := firstChange (·.onExpr scope) all code
    Part.expr.weight cost onAction code =
      Part.expr.weight cost onAction result.1 + cost * result.2.length := by
  obtain hidle | ⟨rule, member, changed, hchanged, hused⟩ :=
    firstChange_cases (·.onExpr scope) all code
  · simp only [hidle]
    rfl
  · simp only [hused]
    exact (peels_of_onExpr member hchanged).weight_eq cost onAction

/-- A rule that fits an action is counted once, however many wrappers it takes off. -/
theorem exists_weight_firstChange_onAction (scope : Scope) (code : Action) :
    let result := firstChange (·.onAction scope) all code
    ∃ number, result.2.length = min 1 number ∧
      ∀ cost onAction, Part.action.weight cost onAction code =
        Part.action.weight cost onAction result.1 + cost * number := by
  obtain hidle | ⟨rule, member, changed, hchanged, hused⟩ :=
    firstChange_cases (·.onAction scope) all code
  · simp only [hidle]
    exact ⟨0, rfl, fun _ _ => rfl⟩
  · simp only [hused]
    obtain ⟨number, pos, peels⟩ := peelsOff_onAction scope member code changed hchanged
    exact ⟨number, (Nat.min_eq_left pos).symm, peels.weight_eq⟩

/-- What a rule takes off an action beyond the one call that is counted is surplus. -/
theorem weight_firstChange_onAction (scope : Scope) (cost : Nat) (onAction : Action → Nat)
    (code : Action) :
    let result := firstChange (·.onAction scope) all code
    Part.action.weight cost onAction code =
      Part.action.weight cost onAction result.1 +
        cost * (result.2.length + surplus scope code) := by
  obtain ⟨number, hused, hweight⟩ := exists_weight_firstChange_onAction scope code
  have htaken : takenOff scope code = number := by
    have hcalls := hweight 1 fun _ => 0
    rw [Part.weight_eq_calls, Part.weight_eq_calls] at hcalls
    rw [takenOff]
    omega
  have hall : (firstChange (·.onAction scope) all code).2.length + surplus scope code =
      number := by
    rw [surplus]
    omega
  intro result
  rw [hweight cost onAction, hall]

/-- A walk below a place changes what the parts of the place weigh. -/
theorem weight_belowExpr {onExpr : Expr → Expr × List UnwrapRule}
    {onAction : Action → Action × List UnwrapRule} (code : Expr) :
    (Stop.expr (belowExpr onExpr onAction code).1).weight 1 (fun _ => 0) =
      (Stop.expr code).ownWeight 1 (fun _ => 0) +
        ((Stop.expr code).parts.map
          fun part => (part.walked onExpr onAction).weight 1 fun _ => 0).sum := by
  have hown : (Stop.expr (belowExpr onExpr onAction code).1).ownWeight 1 (fun _ => 0) =
      (Stop.expr code).ownWeight 1 (fun _ => 0) := by
    cases code <;> rfl
  rw [Stop.weight_eq_add_sum, hown, parts_belowExpr, List.map_map]
  rfl

theorem weight_belowAction {onExpr : Expr → Expr × List UnwrapRule}
    (onAction : Action → Action × List UnwrapRule) (code : Action) :
    (Stop.action (belowAction onExpr code).1).weight 1 (fun _ => 0) =
      ((Stop.action code).parts.map
        fun part => (part.walked onExpr onAction).weight 1 fun _ => 0).sum := by
  rw [Stop.weight_eq_add_sum, parts_belowAction onAction, List.map_map, Stop.ownWeight,
    Nat.zero_add]
  rfl

/-- From each place on, the calls that go are those that are counted and the surplus
of the statements that are met. -/
theorem weight_eq_walked (scope : Scope) (place : Stop) :
    place.weight 1 (fun _ => 0) =
      (place.walked (walkExpr scope all) (walkAction scope all)).weight 1 (fun _ => 0) +
        place.used (walkExpr scope all) (walkAction scope all) +
        place.weight 0 (surplus scope) := by
  have usual : all ⊆ all := List.Subset.refl all
  induction place using (Stop.wellFounded_next scope usual).induction with
  | _ place ih =>
      -- The walk goes on at the parts of what a rule has made of the place. Statements in
      -- these parts weigh what they did before, so that their surplus is that of the source.
      have hparts := congrArg List.sum (List.map_congr_left ih)
      rw [List.sum_map_add, List.sum_map_add] at hparts
      rcases place with code | code
      · have hcalls := weight_firstChange_onExpr scope 1 (fun _ => 0) code
        have hsurplus := weight_firstChange_onExpr scope 0 (surplus scope) code
        rw [Stop.walked, walkExpr_fst usual, weight_belowExpr, Stop.used, walkExpr_snd usual,
          List.length_append, length_belowExpr]
        rw [Stop.next, Stop.rewritten] at hparts
        generalize firstChange (·.onExpr scope) all code = result at hparts hcalls hsurplus ⊢
        have hall := Stop.weight_eq_add_sum 1 (fun _ => 0) (.expr result.1)
        have hnone := Stop.weight_eq_add_sum 0 (surplus scope) (.expr result.1)
        rw [Stop.ownWeight_expr_zero] at hnone
        rw [Stop.weight_expr] at hall hnone
        rw [Stop.weight_expr, Stop.weight_expr]
        omega
      · have hcalls := weight_firstChange_onAction scope 1 (fun _ => 0) code
        have hsurplus := weight_firstChange_onAction scope 0 (surplus scope) code
        rw [Stop.walked, walkAction_fst usual, weight_belowAction (walkAction scope all), Stop.used,
          walkAction_snd usual, List.length_append, length_belowAction (walkAction scope all)]
        rw [Stop.next, Stop.rewritten] at hparts
        generalize firstChange (·.onAction scope) all code = result at hparts hcalls hsurplus ⊢
        have hall := Stop.weight_eq_add_sum 1 (fun _ => 0) (.action result.1)
        have hnone := Stop.weight_eq_add_sum 0 (surplus scope) (.action result.1)
        rw [Stop.weight_action, Stop.ownWeight] at hall hnone
        rw [Stop.weight_action, Stop.weight_action]
        omega

/-- The calls that go from statements are those that are counted and the surplus of the
statements that are met. -/
theorem calls_eq_total_add_surplus (scope : Scope) (stmts : List (Stmt Action)) :
    let result := apply scope all stmts
    Part.stmts.calls stmts =
      Part.stmts.calls result.1 + (tally result.2).total +
        ((metStmts stmts).map fun stmt => surplus scope stmt.action).sum := by
  intro result
  have hresult : result = mapStmts (walkAction scope all) stmts :=
    apply_eq_mapStmts (List.Subset.refl all) stmts
  have hparts := congrArg List.sum (List.map_congr_left fun part (_ : part ∈ Stop.ofStmts stmts) =>
    weight_eq_walked scope part)
  rw [List.sum_map_add, List.sum_map_add] at hparts
  rw [← weight_eq_sum_metStmts, ← Part.weight_eq_calls, ← Part.weight_eq_calls,
    Stop.weight_stmts, Stop.weight_stmts, Stop.weight_stmts, total_tally, hresult,
    length_mapStmts (walkExpr scope all), ofStmts_mapStmts (walkExpr scope all), List.map_map]
  exact hparts

/-- Unwrapping takes one wrapper off after the other, and as many of them as there are
calls less at the end. The counts of all rules together fall short of that number: by
one for each wrapper that the first rule that fits a statement takes off it beyond the
first one, summed up over the statements at any depth as they stand in the source. So
they are right exactly if no such rule takes more than one wrapper off a statement. -/
theorem total_tally_apply_eq_iff (scope : Scope) (stmts : List (Stmt Action)) :
    let result := apply scope all stmts
    let gone := Part.stmts.calls stmts - Part.stmts.calls result.1
    (∃ states : List (List (Stmt Action)),
      List.IsChain (Strips scope (all.flatMap wrappers) .stmts) (stmts :: states) ∧
      (stmts :: states).getLast (List.cons_ne_nil _ _) = result.1 ∧
      states.length = gone) ∧
    gone = (tally result.2).total +
      ((metStmts stmts).map fun stmt => takenOff scope stmt.action - 1).sum ∧
    ((tally result.2).total = gone ↔
      ∀ stmt ∈ metStmts stmts, takenOff scope stmt.action ≤ 1) := by
  intro result gone
  have hgone : gone = (tally result.2).total +
      ((metStmts stmts).map fun stmt => takenOff scope stmt.action - 1).sum := by
    have hcalls : Part.stmts.calls stmts = Part.stmts.calls result.1 + (tally result.2).total +
        ((metStmts stmts).map fun stmt => takenOff scope stmt.action - 1).sum :=
      calls_eq_total_add_surplus scope stmts
    omega
  refine ⟨?_, hgone, ?_⟩
  · have steps : Relation.ReflTransGen (Strips scope (all.flatMap wrappers) .stmts) stmts
        result.1 := (walks_apply (List.Subset.refl all) stmts).reflTransGen
    obtain ⟨states, chain, hlast⟩ := List.exists_isChain_cons_of_relationReflTransGen steps
    have hlength := calls_eq_of_isChain chain
    rw [hlast] at hlength
    exact ⟨states, chain, hlast, by omega⟩
  · have hzero : ((metStmts stmts).map fun stmt => takenOff scope stmt.action - 1).sum = 0 ↔
        ∀ stmt ∈ metStmts stmts, takenOff scope stmt.action ≤ 1 := by
      simp only [List.sum_eq_zero_iff_forall_eq_nat, List.forall_mem_map, Nat.sub_eq_zero_iff_le]
    rw [← hzero]
    omega

/-- The assignment of two clients that are wrapped. -/
def wrappedClients : List (Stmt Action) :=
  [⟨[], [], .assignment ⟨[], [⟨.ident ['a'], ", ".toList⟩, ⟨.ident ['b'], [' ']⟩]⟩
    ⟨":= ".toList, [⟨instrumentCall "WrapHTTPClient" (.ident ['x']), ", ".toList⟩,
      ⟨instrumentCall "WrapHTTPClient" (.ident ['y']), []⟩]⟩, [], [], 1⟩]

theorem total_tally_apply_wrappedClients :
    let result := apply instrumentScope all wrappedClients
    printStmts wrappedClients =
      "a, b := instrument.WrapHTTPClient(x), instrument.WrapHTTPClient(y)".toList ∧
    printStmts result.1 = "a, b := x, y".toList ∧
    tally result.2 = [("client".toList, 1)] ∧
    Part.stmts.calls wrappedClients = 2 ∧ Part.stmts.calls result.1 = 0 ∧
    (tally result.2).total ≠ Part.stmts.calls wrappedClients - Part.stmts.calls result.1 := by
  decide

end UnwrapRule

end Deinstrument
