import Deinstrument.Proofs.Unwrapping

/-!
# Connection wrappers

Connection wrappers are looked for in every expression, but at each place only
once: where a wrapper stands directly around another one, the inner one takes the
place of the outer one and is not tried any more. Whether any wrapper is left can
be read off the code that the rules for statements alone would leave. That code is
what the walk with all rules goes through as far as connections are concerned,
since recognising a connection and changing a statement do not interfere.
-/

namespace Deinstrument

/-! ## Places after a walk -/

namespace Stop

/-- A place after a walk from it on. -/
def walked (onExpr : Expr → Expr × List UnwrapRule) (onAction : Action → Action × List UnwrapRule) :
    Stop → Stop
  | .expr code => .expr (onExpr code).1
  | .action code => .action (onAction code).1

/-- An expression with some property is met from a place on. -/
def Meets (property : Expr → Prop) : Stop → Prop
  | .expr code => ∃ found, .expr found ∈ code.visits ∧ property found
  | .action code => ∃ found, .expr found ∈ code.visits ∧ property found

section Meets

variable {property : Expr → Prop}

theorem meets_items {items : List (Spaced Expr)} :
    (∃ found, .expr found ∈ visitsItems items ∧ property found) ↔
      ∃ part ∈ ofItems items, part.Meets property := by
  induction items with
  | nil => simp [visitsItems, ofItems]
  | cons item rest ih =>
      simp only [visitsItems, List.mem_append, or_and_right, exists_or, ih, ofItems,
        List.map_cons, List.mem_cons, exists_eq_left, Meets]

theorem meets_stmts {stmts : List (Stmt Action)} :
    (∃ found, .expr found ∈ visitsStmts stmts ∧ property found) ↔
      ∃ part ∈ ofStmts stmts, part.Meets property := by
  induction stmts with
  | nil => simp [visitsStmts, ofStmts]
  | cons stmt rest ih =>
      simp only [visitsStmts, List.mem_cons, reduceCtorEq, false_or, List.mem_append,
        or_and_right, exists_or, ih, ofStmts, List.map_cons, exists_eq_left, Meets]

/-- An expression is met before its parts. -/
theorem meets_expr (code : Expr) :
    (expr code).Meets property ↔
      property code ∨ ∃ part ∈ (expr code).parts, part.Meets property := by
  cases code with
  | ident => simp [Meets, parts, Expr.visits]
  | selector | keyed => simp [Meets, parts, Expr.visits, or_and_right, exists_or]
  | call | literal | elements | other =>
      simp [Meets, parts, Expr.visits, or_and_right, exists_or, meets_items]
  | function head body =>
      obtain ⟨opening, stmts, closing⟩ := body
      simp [Meets, parts, Expr.visits, visitsBlock, or_and_right, exists_or, meets_stmts]

theorem meets_action (code : Action) :
    (action code).Meets property ↔ ∃ part ∈ (action code).parts, part.Meets property := by
  cases code with
  | expression => simp [Meets, parts, Action.visits]
  | assignment => simp [Meets, parts, Action.visits, or_and_right, exists_or, meets_items]
  | results => simp [Meets, parts, Action.visits, meets_items]
  | verbatim => simp [Meets, parts, Action.visits]

theorem meets_map {property' : Expr → Prop} {walk : Stop → Stop} {parts : List Stop}
    (same : ∀ part ∈ parts, (walk part).Meets property ↔ part.Meets property') :
    (∃ part ∈ parts.map walk, part.Meets property) ↔ ∃ part ∈ parts, part.Meets property' := by
  constructor
  · rintro ⟨_, image, meets⟩
    obtain ⟨part, member, rfl⟩ := List.mem_map.mp image
    exact ⟨part, member, (same part member).mp meets⟩
  · rintro ⟨part, member, meets⟩
    exact ⟨walk part, List.mem_map_of_mem member, (same part member).mpr meets⟩

end Meets

end Stop

namespace UnwrapRule

section Parts

variable {onExpr : Expr → Expr × List UnwrapRule} {onAction : Action → Action × List UnwrapRule}

theorem ofItems_mapItems (onAction : Action → Action × List UnwrapRule)
    (items : List (Spaced Expr)) :
    Stop.ofItems (mapItems onExpr items).1 =
      (Stop.ofItems items).map (Stop.walked onExpr onAction) := by
  induction items with
  | nil => rfl
  | cons item rest ih => exact congrArg (_ :: ·) ih

theorem ofStmts_mapStmts (onExpr : Expr → Expr × List UnwrapRule) (stmts : List (Stmt Action)) :
    Stop.ofStmts (mapStmts onAction stmts).1 =
      (Stop.ofStmts stmts).map (Stop.walked onExpr onAction) := by
  induction stmts with
  | nil => rfl
  | cons stmt rest ih => exact congrArg (_ :: ·) ih

/-- A walk below an expression is a walk from each of its parts on. -/
theorem parts_belowExpr (code : Expr) :
    (Stop.expr (belowExpr onExpr onAction code).1).parts =
      (Stop.expr code).parts.map (Stop.walked onExpr onAction) := by
  cases code with
  | ident => rfl
  | selector | keyed => rfl
  | call | literal => exact congrArg (_ :: ·) (ofItems_mapItems _ _)
  | elements | other => exact ofItems_mapItems _ _
  | function => exact ofStmts_mapStmts _ _

theorem parts_belowAction (onAction : Action → Action × List UnwrapRule) (code : Action) :
    (Stop.action (belowAction onExpr code).1).parts =
      (Stop.action code).parts.map (Stop.walked onExpr onAction) := by
  cases code with
  | expression | verbatim => rfl
  | assignment targets values =>
      simp only [belowAction, Stop.parts, List.map_append]
      rw [ofItems_mapItems onAction, ofItems_mapItems onAction]
  | results => exact ofItems_mapItems _ _

end Parts

section Twice

variable {early late both : Expr → Expr × List UnwrapRule}
  {onEarly onLate onBoth : Action → Action × List UnwrapRule}

theorem mapItems_mapItems {items : List (Spaced Expr)}
    (exprs : ∀ part, .expr part ∈ Stop.ofItems items → (late (early part).1).1 = (both part).1) :
    (mapItems late (mapItems early items).1).1 = (mapItems both items).1 := by
  induction items with
  | nil => rfl
  | cons item rest ih =>
      simp only [mapItems]
      rw [exprs item.value List.mem_cons_self,
        ih fun part member => exprs part (List.mem_cons_of_mem _ member)]

theorem mapStmts_mapStmts {stmts : List (Stmt Action)}
    (actions : ∀ part, .action part ∈ Stop.ofStmts stmts →
      (onLate (onEarly part).1).1 = (onBoth part).1) :
    (mapStmts onLate (mapStmts onEarly stmts).1).1 = (mapStmts onBoth stmts).1 := by
  induction stmts with
  | nil => rfl
  | cons stmt rest ih =>
      simp only [mapStmts]
      rw [actions stmt.action List.mem_cons_self,
        ih fun part member => actions part (List.mem_cons_of_mem _ member)]

/-- Two walks below an expression are one, if they are one from each of its parts on. -/
theorem belowExpr_belowExpr {code : Expr}
    (exprs : ∀ part, .expr part ∈ (Stop.expr code).parts →
      (late (early part).1).1 = (both part).1)
    (actions : ∀ part, .action part ∈ (Stop.expr code).parts →
      (onLate (onEarly part).1).1 = (onBoth part).1) :
    (belowExpr late onLate (belowExpr early onEarly code).1).1 =
      (belowExpr both onBoth code).1 := by
  cases code with
  | ident => rfl
  | selector lead operand dot name tail =>
      simp only [belowExpr]
      rw [exprs operand List.mem_cons_self]
  | call lead callee arguments =>
      simp only [belowExpr]
      rw [exprs callee List.mem_cons_self,
        mapItems_mapItems fun part member => exprs part (List.mem_cons_of_mem _ member)]
  | literal lead type elements =>
      simp only [belowExpr]
      rw [exprs type List.mem_cons_self,
        mapItems_mapItems fun part member => exprs part (List.mem_cons_of_mem _ member)]
  | elements row =>
      simp only [belowExpr]
      rw [mapItems_mapItems exprs]
  | keyed lead key colon value tail =>
      simp only [belowExpr]
      rw [exprs key List.mem_cons_self,
        exprs value (List.mem_cons_of_mem _ List.mem_cons_self)]
  | function head body =>
      simp only [belowExpr]
      rw [mapStmts_mapStmts actions]
  | other kind row =>
      simp only [belowExpr]
      rw [mapItems_mapItems exprs]

theorem belowAction_belowAction {code : Action}
    (exprs : ∀ part, .expr part ∈ (Stop.action code).parts →
      (late (early part).1).1 = (both part).1) :
    (belowAction late (belowAction early code).1).1 = (belowAction both code).1 := by
  cases code with
  | expression lead value tail =>
      simp only [belowAction]
      rw [exprs value List.mem_cons_self]
  | assignment targets values =>
      simp only [belowAction]
      rw [mapItems_mapItems fun part member => exprs part (List.mem_append_left _ member),
        mapItems_mapItems fun part member => exprs part (List.mem_append_right _ member)]
  | results row =>
      simp only [belowAction]
      rw [mapItems_mapItems exprs]
  | verbatim => rfl

end Twice

/-! ## The walk without a bound -/

section Walk

variable {scope : Scope} {rules : List UnwrapRule}

/-- The walk from an expression on, to its end. -/
def walkExpr (scope : Scope) (rules : List UnwrapRule) (code : Expr) : Expr × List UnwrapRule :=
  applyExpr scope rules code.depth code

/-- The walk from an action on, to its end. -/
def walkAction (scope : Scope) (rules : List UnwrapRule) (code : Action) :
    Action × List UnwrapRule :=
  applyAction scope rules code.depth code

theorem applyExpr_eq_walkExpr (usual : rules ⊆ all) {depth : Nat} {code : Expr}
    (deep : code.depth ≤ depth) : applyExpr scope rules depth code = walkExpr scope rules code :=
  (applyAt_eq usual depth code.depth).1 code deep (Nat.le_refl _)

theorem applyAction_eq_walkAction (usual : rules ⊆ all) {depth : Nat} {code : Action}
    (deep : code.depth ≤ depth) :
    applyAction scope rules depth code = walkAction scope rules code :=
  (applyAt_eq usual depth code.depth).2 code deep (Nat.le_refl _)

/-- The walk from an expression on tries the rules there and goes on below the result. -/
theorem walkExpr_eq (usual : rules ⊆ all) (code : Expr) :
    walkExpr scope rules code =
      let (changed, used) := firstChange (·.onExpr scope) rules code
      let (walked, usedBelow) :=
        belowExpr (walkExpr scope rules) (walkAction scope rules) changed
      (walked, used ++ usedBelow) := by
  obtain ⟨depth, hdepth⟩ : ∃ depth, code.depth = depth + 1 :=
    Nat.exists_eq_succ_of_ne_zero (Nat.ne_of_gt (Stop.expr code).depth_pos)
  have hparts : ∀ part ∈ (Stop.expr code).next scope rules, part.depth ≤ depth :=
    fun _ member => Stop.depth_le_of_mem_next usual member (Nat.le_of_eq hdepth)
  rw [walkExpr, hdepth]
  simp only [applyExpr]
  rw [belowExpr_congr (fun part member => applyExpr_eq_walkExpr usual (hparts _ member))
    (fun part member => applyAction_eq_walkAction usual (hparts _ member))]

theorem walkAction_eq (usual : rules ⊆ all) (code : Action) :
    walkAction scope rules code =
      let (changed, used) := firstChange (·.onAction scope) rules code
      let (walked, usedBelow) := belowAction (walkExpr scope rules) changed
      (walked, used ++ usedBelow) := by
  obtain ⟨depth, hdepth⟩ : ∃ depth, code.depth = depth + 1 :=
    Nat.exists_eq_succ_of_ne_zero (Nat.ne_of_gt (Stop.action code).depth_pos)
  have hparts : ∀ part ∈ (Stop.action code).next scope rules, part.depth ≤ depth :=
    fun _ member => Stop.depth_le_of_mem_next usual member (Nat.le_of_eq hdepth)
  rw [walkAction, hdepth]
  simp only [applyAction]
  rw [belowAction_congr fun part member => applyExpr_eq_walkExpr usual (hparts _ member)]

theorem walkExpr_fst (usual : rules ⊆ all) (code : Expr) :
    (walkExpr scope rules code).1 =
      (belowExpr (walkExpr scope rules) (walkAction scope rules)
        (firstChange (·.onExpr scope) rules code).1).1 := by
  rw [walkExpr_eq usual]

theorem walkExpr_snd (usual : rules ⊆ all) (code : Expr) :
    let result := firstChange (·.onExpr scope) rules code
    (walkExpr scope rules code).2 =
      result.2 ++ (belowExpr (walkExpr scope rules) (walkAction scope rules) result.1).2 := by
  rw [walkExpr_eq usual]

theorem walkAction_fst (usual : rules ⊆ all) (code : Action) :
    (walkAction scope rules code).1 =
      (belowAction (walkExpr scope rules) (firstChange (·.onAction scope) rules code).1).1 := by
  rw [walkAction_eq usual]

theorem walkAction_snd (usual : rules ⊆ all) (code : Action) :
    let result := firstChange (·.onAction scope) rules code
    (walkAction scope rules code).2 =
      result.2 ++ (belowAction (walkExpr scope rules) result.1).2 := by
  rw [walkAction_eq usual]

theorem apply_eq_mapStmts (usual : rules ⊆ all) (stmts : List (Stmt Action)) :
    apply scope rules stmts = mapStmts (walkAction scope rules) stmts :=
  mapStmts_congr fun _ member =>
    applyAction_eq_walkAction usual (Stop.depth_le_of_mem_ofStmts member)

end Walk

/-! ## Recognising wrappers -/

/-- What is called and with what, in a call with one argument. -/
def simpleCall? : Expr → Option (Expr × Expr)
  | .call _ callee ⟨_, [⟨argument, _⟩]⟩ => some (callee, argument)
  | _ => none

/-- The name that an expression consists of. -/
def simpleName? : Expr → Option Text
  | .ident name => some name
  | _ => none

/-- Change the operand of a selector. -/
def onOperand (change : Expr → Expr) : Expr → Expr
  | .selector lead operand dot name tail => .selector lead (change operand) dot name tail
  | code => code

section Below

variable {scope : Scope} {names : List Text} {onExpr : Expr → Expr × List UnwrapRule}
  {onAction : Action → Action × List UnwrapRule}

theorem simpleCall?_belowExpr (code : Expr) :
    simpleCall? (belowExpr onExpr onAction code).1 =
      (simpleCall? code).map fun call => ((onExpr call.1).1, (onExpr call.2).1) := by
  cases code with
  | call lead callee arguments =>
      obtain ⟨gap, items⟩ := arguments
      rcases items with _ | ⟨first, _ | ⟨second, rest⟩⟩ <;> rfl
  | _ => rfl

theorem simpleName?_belowExpr (code : Expr) :
    simpleName? (belowExpr onExpr onAction code).1 = simpleName? code := by
  cases code <;> rfl

theorem wrapped?_eq (code : Expr) :
    scope.wrapped? names code =
      (simpleCall? code).bind fun call =>
        if scope.refersTo names call.1 then some call.2 else none := by
  cases code with
  | call lead callee arguments =>
      obtain ⟨gap, items⟩ := arguments
      rcases items with _ | ⟨first, _ | ⟨second, rest⟩⟩ <;> rfl
  | _ => rfl

theorem resolve?_selector (imports : List Import) (lead : Text) (operand : Expr)
    (dot name tail : Text) :
    (Expr.selector lead operand dot name tail).resolve? imports =
      (simpleName? operand).bind fun package =>
        (Import.pathOf? imports package).map fun path => ⟨path, name⟩ := by
  cases operand <;> rfl

/-- To what an expression refers after a walk below it depends on what the walk makes
of the operand only. -/
theorem refersTo_belowExpr (change : Expr → Expr)
    (same : ∀ operand, simpleName? (onExpr operand).1 = simpleName? (change operand))
    (code : Expr) :
    scope.refersTo names (belowExpr onExpr onAction code).1 =
      scope.refersTo names (onOperand change code) := by
  cases code with
  | selector lead operand dot name tail =>
      simp only [Scope.refersTo, belowExpr, onOperand, resolve?_selector, same]
  | _ => rfl

end Below

/-! ## Connections -/

/-- The rules for the actions of statements. -/
def statementRules : List UnwrapRule :=
  [client, handlerExpr, handlerAssign, sqlExpr, sqlAssign, sqlReturn]

theorem statementRules_subset_all : statementRules ⊆ all :=
  List.subset_append_left statementRules [grpc]

theorem grpc_subset_all : [grpc] ⊆ all :=
  List.subset_append_right statementRules [grpc]

/-- What stands in the place of an expression once a connection wrapper is taken off
it, if it is one. -/
def opened (scope : Scope) (code : Expr) : Expr :=
  (scope.wrapped? grpcWrappers code).getD code

/-- A connection wrapper is left where an expression stands: what takes its place is a
call with one argument, and what is called becomes the wrapper once wrappers are taken
off it and off its operand. -/
def leavesConnection (scope : Scope) (code : Expr) : Bool :=
  match simpleCall? (opened scope code) with
  | some (callee, _) =>
      scope.refersTo grpcWrappers (onOperand (opened scope) (opened scope callee))
  | none => false

section Connections

variable {scope : Scope}

theorem firstChange_all_onExpr (code : Expr) :
    (firstChange (·.onExpr scope) all code).1 = opened scope code := by
  simp only [opened, all, firstChange, client, handlerExpr, handlerAssign, sqlExpr, sqlAssign,
    sqlReturn, grpc, ofValues, ofActions]
  cases scope.wrapped? grpcWrappers code <;> rfl

theorem firstChange_grpc_onExpr (code : Expr) :
    (firstChange (·.onExpr scope) [grpc] code).1 = opened scope code := by
  simp only [opened, firstChange, grpc]
  cases scope.wrapped? grpcWrappers code <;> rfl

theorem firstChange_concat_grpc (rules : List UnwrapRule) (code : Action) :
    firstChange (·.onAction scope) (rules ++ [grpc]) code =
      firstChange (·.onAction scope) rules code := by
  induction rules with
  | nil => rfl
  | cons rule rest ih => rw [List.cons_append, firstChange, firstChange, ih]

theorem walkExpr_statementRules (code : Expr) :
    (walkExpr scope statementRules code).1 =
      (belowExpr (walkExpr scope statementRules) (walkAction scope statementRules) code).1 :=
  walkExpr_fst statementRules_subset_all code

theorem walkExpr_grpc (code : Expr) :
    (walkExpr scope [grpc] code).1 =
      (belowExpr (walkExpr scope [grpc]) (walkAction scope [grpc]) (opened scope code)).1 := by
  rw [walkExpr_fst grpc_subset_all, firstChange_grpc_onExpr]

theorem walkAction_grpc (code : Action) :
    (walkAction scope [grpc] code).1 = (belowAction (walkExpr scope [grpc]) code).1 :=
  walkAction_fst grpc_subset_all code

/-- The rules for statements neither hide nor bring to light a connection wrapper. -/
theorem opened_walkExpr (code : Expr) :
    opened scope (walkExpr scope statementRules code).1 =
      (walkExpr scope statementRules (opened scope code)).1 := by
  -- What a callee refers to shows in its operand, and no rule for statements changes an
  -- expression where it stands.
  have hrefers : ∀ callee : Expr,
      scope.refersTo grpcWrappers (walkExpr scope statementRules callee).1 =
        scope.refersTo grpcWrappers callee := by
    intro callee
    rw [walkExpr_statementRules, refersTo_belowExpr id]
    · cases callee <;> rfl
    · intro operand
      rw [walkExpr_statementRules, simpleName?_belowExpr]
      rfl
  have hwrapped : scope.wrapped? grpcWrappers (walkExpr scope statementRules code).1 =
      (scope.wrapped? grpcWrappers code).map fun argument =>
        (walkExpr scope statementRules argument).1 := by
    rw [wrapped?_eq, wrapped?_eq, walkExpr_statementRules, simpleCall?_belowExpr]
    rcases simpleCall? code with _ | ⟨callee, argument⟩
    · rfl
    · simp only [Option.map_some, Option.bind_some, hrefers]
      split <;> rfl
  rw [opened, hwrapped, opened]
  cases scope.wrapped? grpcWrappers code <;> rfl

/-- The walk with all rules is the walk with the rules for statements and then the one
for connections. -/
theorem walk_all (place : Stop) :
    (place.walked (walkExpr scope statementRules) (walkAction scope statementRules)).walked
        (walkExpr scope [grpc]) (walkAction scope [grpc]) =
      place.walked (walkExpr scope all) (walkAction scope all) := by
  have usual : all ⊆ all := List.Subset.refl all
  induction place using (Stop.wellFounded_next scope usual).induction with
  | _ place ih =>
      have exprs : ∀ part, .expr part ∈ place.next scope all →
          (walkExpr scope [grpc] (walkExpr scope statementRules part).1).1 =
            (walkExpr scope all part).1 :=
        fun part member => Stop.expr.inj (ih _ member)
      have actions : ∀ part, .action part ∈ place.next scope all →
          (walkAction scope [grpc] (walkAction scope statementRules part).1).1 =
            (walkAction scope all part).1 :=
        fun part member => Stop.action.inj (ih _ member)
      rcases place with code | code
      · rw [Stop.next, Stop.rewritten, firstChange_all_onExpr] at exprs actions
        refine congrArg Stop.expr ?_
        rw [walkExpr_grpc, opened_walkExpr, walkExpr_statementRules,
          belowExpr_belowExpr exprs actions, walkExpr_fst usual, firstChange_all_onExpr]
      · refine congrArg Stop.action ?_
        rw [walkAction_grpc, walkAction_fst statementRules_subset_all,
          ← firstChange_concat_grpc statementRules code, walkAction_fst usual]
        exact belowAction_belowAction exprs

/-- A wrapper stands in the place of an expression after the walk for connections
exactly if one is left there. -/
theorem isSome_wrapped?_walkExpr (code : Expr) :
    (scope.wrapped? grpcWrappers (walkExpr scope [grpc] code).1).isSome =
      leavesConnection scope code := by
  have hname : ∀ operand : Expr, simpleName? (walkExpr scope [grpc] operand).1 =
      simpleName? (opened scope operand) := by
    intro operand
    rw [walkExpr_grpc, simpleName?_belowExpr]
  rw [wrapped?_eq, walkExpr_grpc, simpleCall?_belowExpr, leavesConnection]
  rcases simpleCall? (opened scope code) with _ | ⟨callee, argument⟩
  · rfl
  · simp only [Option.map_some, Option.bind_some]
    rw [walkExpr_grpc callee, refersTo_belowExpr (opened scope) hname]
    cases scope.refersTo grpcWrappers (onOperand (opened scope) (opened scope callee)) <;> rfl

/-- What refers to a name of a package selects it from the package. -/
theorem exists_selector {names : List Text} {code : Expr}
    (refers : scope.refersTo names code = true) :
    ∃ start package dot name behind, code = .selector start (.ident package) dot name behind := by
  unfold Scope.refersTo Expr.resolve? at refers
  split at refers
  next found hfound =>
    split at hfound
    next start package dot name behind => exact ⟨start, package, dot, name, behind, rfl⟩
    next => cases hfound
  next => cases refers

/-- A wrapper is the call of a name selected from a package. -/
theorem eq_of_wrapped? {names : List Text} {code argument : Expr}
    (wrapped : scope.wrapped? names code = some argument) :
    ∃ lead start package dot name behind gap tail,
      code = .call lead (.selector start (.ident package) dot name behind)
        ⟨gap, [⟨argument, tail⟩]⟩ ∧
      scope.refersTo names (.selector start (.ident package) dot name behind) = true := by
  unfold Scope.wrapped? at wrapped
  split at wrapped
  next lead callee gap _ tail =>
    split at wrapped
    next refers =>
      cases wrapped
      obtain ⟨start, package, dot, name, behind, rfl⟩ := exists_selector refers
      exact ⟨lead, start, package, dot, name, behind, gap, tail, rfl, refers⟩
    next => cases wrapped
  next => cases wrapped

theorem opened_of_wrapped? {code argument : Expr}
    (wrapped : scope.wrapped? grpcWrappers code = some argument) :
    opened scope code = argument := by
  rw [opened, wrapped, Option.getD_some]

theorem opened_of_not_wrapped? {code : Expr} (bare : scope.wrapped? grpcWrappers code = none) :
    opened scope code = code := by
  rw [opened, bare, Option.getD_none]

/-- A wrapper inside of a wrapper is left. -/
theorem leavesConnection_of_wrapped? {code argument : Expr}
    (wrapped : scope.wrapped? grpcWrappers (opened scope code) = some argument) :
    leavesConnection scope code = true := by
  obtain ⟨lead, start, package, dot, name, behind, gap, tail, hcode, refers⟩ :=
    eq_of_wrapped? wrapped
  rw [leavesConnection, hcode]
  exact refers

/-- What is left in the argument of a wrapper is left of the wrapper. -/
theorem leavesConnection_of_argument {code argument : Expr}
    (wrapped : scope.wrapped? grpcWrappers code = some argument)
    (leaves : leavesConnection scope argument = true) : leavesConnection scope code = true := by
  have hopened := opened_of_wrapped? wrapped
  cases hargument : scope.wrapped? grpcWrappers argument with
  | none =>
      rw [leavesConnection, opened_of_not_wrapped? hargument] at leaves
      rw [leavesConnection, hopened]
      exact leaves
  | some inner => exact leavesConnection_of_wrapped? (hopened ▸ hargument)

/-- It is enough to look at the expressions at which the walk tries the rule. -/
theorem meets_leavesConnection (code : Expr) :
    (Stop.expr code).Meets (leavesConnection scope · = true) ↔
      leavesConnection scope code = true ∨
        ∃ part ∈ (Stop.expr (opened scope code)).parts,
          part.Meets (leavesConnection scope · = true) := by
  rw [Stop.meets_expr]
  cases hcode : scope.wrapped? grpcWrappers code with
  | none => rw [opened_of_not_wrapped? hcode]
  | some argument =>
      rw [opened_of_wrapped? hcode]
      -- The callee of a wrapper holds no call, the argument counts for the wrapper itself,
      -- and the walk goes on at the parts of the argument.
      have hinner := leavesConnection_of_argument hcode
      obtain ⟨lead, start, package, dot, name, behind, gap, tail, rfl, -⟩ := eq_of_wrapped? hcode
      have hcallee : ¬(Stop.expr (.selector start (.ident package) dot name behind)).Meets
          (leavesConnection scope · = true) := by
        simp [Stop.meets_expr, Stop.parts, leavesConnection, opened, Scope.wrapped?, simpleCall?]
      have hparts : (∃ part ∈ (Stop.expr (.call lead (.selector start (.ident package) dot name
          behind) ⟨gap, [⟨argument, tail⟩]⟩)).parts, part.Meets (leavesConnection scope · = true)) ↔
          (Stop.expr argument).Meets (leavesConnection scope · = true) := by
        simp [Stop.parts, Stop.ofItems, hcallee]
      rw [hparts, Stop.meets_expr argument, ← or_assoc, or_iff_left_of_imp hinner]

/-- Wrappers are met after the walk for connections exactly if some are left before it. -/
theorem meets_walked_iff (place : Stop) :
    (place.walked (walkExpr scope [grpc]) (walkAction scope [grpc])).Meets
        (fun found => (scope.wrapped? grpcWrappers found).isSome = true) ↔
      place.Meets (leavesConnection scope · = true) := by
  induction place using (Stop.wellFounded_next scope grpc_subset_all).induction with
  | _ place ih =>
      rcases place with code | code
      · rw [Stop.next, Stop.rewritten, firstChange_grpc_onExpr] at ih
        rw [meets_leavesConnection, Stop.walked, Stop.meets_expr, isSome_wrapped?_walkExpr,
          walkExpr_grpc, parts_belowExpr]
        exact or_congr_right (Stop.meets_map ih)
      · rw [Stop.walked, Stop.meets_action, Stop.meets_action, walkAction_grpc,
          parts_belowAction (walkAction scope [grpc])]
        exact Stop.meets_map ih

/-- With all rules, no connection wrapper is left anywhere in the statements exactly if
none is left where an expression stands in what the rules for statements alone make of
them: that is, above all, if no wrapper stands directly around another one there. -/
theorem apply_all_leaves_no_connection_iff (scope : Scope) (stmts : List (Stmt Action)) :
    (∀ code, .expr code ∈ visitsStmts (apply scope all stmts).1 →
      scope.wrapped? grpcWrappers code = none) ↔
    (∀ code, .expr code ∈ visitsStmts (apply scope statementRules stmts).1 →
      leavesConnection scope code = false) := by
  have hboth : (apply scope all stmts).1 =
      (mapStmts (walkAction scope [grpc]) (apply scope statementRules stmts).1).1 := by
    rw [apply_eq_mapStmts (List.Subset.refl all), apply_eq_mapStmts statementRules_subset_all]
    exact (mapStmts_mapStmts fun part _ => Stop.action.inj (walk_all (.action part))).symm
  have hmeets : (∃ code, .expr code ∈ visitsStmts (apply scope all stmts).1 ∧
        (scope.wrapped? grpcWrappers code).isSome = true) ↔
      ∃ code, .expr code ∈ visitsStmts (apply scope statementRules stmts).1 ∧
        leavesConnection scope code = true := by
    rw [Stop.meets_stmts, Stop.meets_stmts, hboth, ofStmts_mapStmts (walkExpr scope [grpc])]
    exact Stop.meets_map fun part _ => meets_walked_iff part
  have hnot := not_congr hmeets
  simpa using hnot

/-- The call of a function with a connection that is wrapped twice. -/
def nestedConnection : List (Stmt Action) :=
  let inner := instrumentCall "WrapGRPCClientConn" (.ident ['c'])
  let outer := instrumentCall "WrapGRPCClientConn" inner
  let call : Expr := .call [] (.ident "dial".toList) ⟨['('], [⟨outer, [')']⟩]⟩
  [⟨[], [], .expression [] call [], [], [], 1⟩]

theorem apply_all_leaves_nestedConnection :
    printStmts (apply instrumentScope all nestedConnection).1 =
      "dial(instrument.WrapGRPCClientConn(c))".toList ∧
    ¬∀ code, .expr code ∈ visitsStmts (apply instrumentScope all nestedConnection).1 →
      instrumentScope.wrapped? grpcWrappers code = none := by
  refine ⟨by decide, fun none_left => ?_⟩
  have hleft := none_left (instrumentCall "WrapGRPCClientConn" (.ident ['c']))
    (.tail _ (.tail _ (.tail _ (.head _))))
  cases hleft

end Connections

end UnwrapRule

end Deinstrument
