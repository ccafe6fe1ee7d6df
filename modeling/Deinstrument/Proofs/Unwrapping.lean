import Deinstrument.Proofs.Stripping

/-!
# Unwrapping

Whichever of the usual rules are applied, and in whichever order, the result is
reached by taking off one wrapper after the other. The walk that applies them goes
from a place on to the parts of what a rule has made of it. These are less deep than
the place was, since taking something off never makes code deeper, so that the walk
comes to an end and the depth of the statements is deep enough for it.
-/

namespace Deinstrument

/-- A walk takes wrappers off, none exactly if it uses no rule. -/
def Walks (scope : Scope) (names : List Text) (part : Part)
    (walk : part.Code → part.Code × List UnwrapRule) : Prop :=
  ∀ code, Unwraps scope names part (walk code).2.isEmpty code (walk code).1

namespace UnwrapRule

/-! ## The walk -/

section Walk

variable {scope : Scope} {names : List Text}

theorem isEmpty_append (used usedLater : List UnwrapRule) :
    (used ++ usedLater).isEmpty = (used.isEmpty && usedLater.isEmpty) := by
  cases used <;> rfl

/-- Either no rule fits, or one of them is used, and no other one. -/
theorem firstChange_cases {α : Type} (change : UnwrapRule → α → Option α)
    (rules : List UnwrapRule) (value : α) :
    firstChange change rules value = (value, []) ∨
      ∃ rule ∈ rules, ∃ changed, change rule value = some changed ∧
        firstChange change rules value = (changed, [rule]) := by
  induction rules with
  | nil => exact .inl rfl
  | cons rule rest ih =>
      unfold firstChange
      split
      next changed hchanged => exact .inr ⟨rule, List.mem_cons_self, changed, hchanged, rfl⟩
      next =>
        obtain hidle | ⟨later, member, used⟩ := ih
        · exact .inl hidle
        · exact .inr ⟨later, List.mem_cons_of_mem _ member, used⟩

theorem walks_firstChange {part : Part} {change : UnwrapRule → part.Code → Option part.Code}
    {rules : List UnwrapRule} (takes : ∀ rule ∈ rules, TakesOff scope names part (change rule)) :
    Walks scope names part (firstChange change rules) := by
  intro code
  obtain hidle | ⟨rule, member, changed, hchanged, hused⟩ := firstChange_cases change rules code
  · rw [hidle]
    exact .idle code
  · rw [hused]
    exact takes rule member code changed hchanged

theorem walks_mapItems {walk : Expr → Expr × List UnwrapRule}
    (walks : Walks scope names .expr walk) : Walks scope names .items (mapItems walk) := by
  intro items
  induction items with
  | nil => exact .idle _
  | cons item rest ih =>
      simp only [mapItems, isEmpty_append]
      exact (walks item.value).items ih item.gap

theorem walks_mapStmts {walk : Action → Action × List UnwrapRule}
    (walks : Walks scope names .action walk) : Walks scope names .stmts (mapStmts walk) := by
  intro stmts
  induction stmts with
  | nil => exact .idle _
  | cons stmt rest ih =>
      simp only [mapStmts, isEmpty_append]
      exact (walks stmt.action).stmts ih

theorem walks_belowExpr {onExpr : Expr → Expr × List UnwrapRule}
    {onAction : Action → Action × List UnwrapRule} (exprs : Walks scope names .expr onExpr)
    (actions : Walks scope names .action onAction) :
    Walks scope names .expr (belowExpr onExpr onAction) := by
  have items := walks_mapItems exprs
  intro expr
  cases expr with
  | ident name => exact .idle _
  | selector lead operand dot name tail =>
      exact (exprs operand).within .expr (fun operand => .selector lead operand dot name tail)
        fun _ slot => .operand lead dot name tail slot
  | call lead callee arguments =>
      obtain ⟨gap, arguments⟩ := arguments
      have hcallee := (exprs callee).within .expr (fun callee => .call lead callee ⟨gap, arguments⟩)
        fun _ slot => .callee lead _ slot
      have harguments := (items arguments).within .expr
        (fun arguments => .call lead (onExpr callee).1 ⟨gap, arguments⟩)
        fun _ slot => .arguments lead _ gap slot
      simpa only [belowExpr, isEmpty_append] using hcallee.trans harguments
  | literal lead type elements =>
      obtain ⟨gap, elements⟩ := elements
      have htype := (exprs type).within .expr (fun type => .literal lead type ⟨gap, elements⟩)
        fun _ slot => .type lead _ slot
      have helements := (items elements).within .expr
        (fun elements => .literal lead (onExpr type).1 ⟨gap, elements⟩)
        fun _ slot => .typedElements lead _ gap slot
      simpa only [belowExpr, isEmpty_append] using htype.trans helements
  | elements row =>
      obtain ⟨gap, elements⟩ := row
      exact (items elements).within .expr (fun elements => .elements ⟨gap, elements⟩)
        fun _ slot => .elements gap slot
  | keyed lead key colon value tail =>
      have hkey := (exprs key).within .expr (fun key => .keyed lead key colon value tail)
        fun _ slot => .key lead colon value tail slot
      have hvalue := (exprs value).within .expr
        (fun value => .keyed lead (onExpr key).1 colon value tail)
        fun _ slot => .value lead _ colon tail slot
      simpa only [belowExpr, isEmpty_append] using hkey.trans hvalue
  | function head body =>
      obtain ⟨opening, stmts, closing⟩ := body
      exact (walks_mapStmts actions stmts).within .expr
        (fun stmts => .function head ⟨opening, stmts, closing⟩)
        fun _ slot => .body head opening closing slot
  | other kind row =>
      obtain ⟨gap, parts⟩ := row
      exact (items parts).within .expr (fun parts => .other kind ⟨gap, parts⟩)
        fun _ slot => .other kind gap slot

theorem walks_belowAction {onExpr : Expr → Expr × List UnwrapRule}
    (exprs : Walks scope names .expr onExpr) :
    Walks scope names .action (belowAction onExpr) := by
  have items := walks_mapItems exprs
  intro action
  cases action with
  | expression lead value tail =>
      exact (exprs value).within .action (fun value => .expression lead value tail)
        fun _ slot => .expression lead tail slot
  | assignment targets values =>
      obtain ⟨lead, targets⟩ := targets
      obtain ⟨gap, values⟩ := values
      have htargets := (items targets).within .action
        (fun targets => .assignment ⟨lead, targets⟩ ⟨gap, values⟩)
        fun _ slot => .targets lead _ slot
      have hvalues := (items values).within .action
        (fun values => .assignment ⟨lead, (mapItems onExpr targets).1⟩ ⟨gap, values⟩)
        fun _ slot => .values _ gap slot
      simpa only [belowAction, isEmpty_append] using htargets.trans hvalues
  | results row =>
      obtain ⟨lead, results⟩ := row
      exact (items results).within .action (fun results => .results ⟨lead, results⟩)
        fun _ slot => .results lead slot
  | verbatim text => exact .idle _

section Usual

variable {rules : List UnwrapRule}

theorem walks_onExpr (usual : rules ⊆ all) :
    Walks scope (rules.flatMap wrappers) .expr (firstChange (·.onExpr scope) rules) := by
  refine walks_firstChange fun rule member expr changed hchanged => ?_
  exact (takesOff_onExpr scope (usual member) expr changed hchanged).mono
    fun _ => List.mem_flatMap_of_mem member

theorem walks_onAction (usual : rules ⊆ all) :
    Walks scope (rules.flatMap wrappers) .action (firstChange (·.onAction scope) rules) := by
  refine walks_firstChange fun rule member action changed hchanged => ?_
  exact (takesOff_onAction scope (usual member) action changed hchanged).mono
    fun _ => List.mem_flatMap_of_mem member

/-- The walk takes wrappers off, however deep it goes. -/
theorem walks_applyAt (usual : rules ⊆ all) (depth : Nat) :
    Walks scope (rules.flatMap wrappers) .expr (applyExpr scope rules depth) ∧
      Walks scope (rules.flatMap wrappers) .action (applyAction scope rules depth) := by
  induction depth with
  | zero => exact ⟨fun _ => .idle _, fun _ => .idle _⟩
  | succ depth ih =>
      obtain ⟨exprs, actions⟩ := ih
      refine ⟨fun expr => ?_, fun action => ?_⟩
      · simp only [applyExpr, isEmpty_append]
        exact (walks_onExpr usual expr).trans (walks_belowExpr exprs actions _)
      · simp only [applyAction, isEmpty_append]
        exact (walks_onAction usual action).trans (walks_belowAction exprs _)

theorem walks_apply (usual : rules ⊆ all) :
    Walks scope (rules.flatMap wrappers) .stmts (apply scope rules) :=
  fun stmts => walks_mapStmts (walks_applyAt usual (depthStmts stmts)).2 stmts

end Usual

end Walk

end UnwrapRule

/-! ## The end of the walk -/

/-- A stop of the walk: a place at which rules are tried. -/
inductive Stop
  | expr (expr : Expr)
  | action (action : Action)

namespace Stop

def depth : Stop → Nat
  | .expr code => code.depth
  | .action code => code.depth

def ofItems (items : List (Spaced Expr)) : List Stop :=
  items.map fun item => .expr item.value

def ofStmts (stmts : List (Stmt Action)) : List Stop :=
  stmts.map fun stmt => .action stmt.action

/-- The places directly below a place, from left to right. -/
def parts : Stop → List Stop
  | .expr (.ident _) => []
  | .expr (.selector _ operand _ _ _) => [.expr operand]
  | .expr (.call _ callee arguments) => .expr callee :: ofItems arguments.items
  | .expr (.literal _ type elements) => .expr type :: ofItems elements.items
  | .expr (.elements row) => ofItems row.items
  | .expr (.keyed _ key _ value _) => [.expr key, .expr value]
  | .expr (.function _ body) => ofStmts body.stmts
  | .expr (.other _ row) => ofItems row.items
  | .action (.expression _ value _) => [.expr value]
  | .action (.assignment targets values) => ofItems targets.items ++ ofItems values.items
  | .action (.results row) => ofItems row.items
  | .action (.verbatim _) => []

/-- What the first rule that fits makes of a place. -/
def rewritten (scope : Scope) (rules : List UnwrapRule) : Stop → Stop
  | .expr code => .expr (UnwrapRule.firstChange (·.onExpr scope) rules code).1
  | .action code => .action (UnwrapRule.firstChange (·.onAction scope) rules code).1

/-- The places to which the walk goes on from a place. -/
def next (scope : Scope) (rules : List UnwrapRule) (place : Stop) : List Stop :=
  (place.rewritten scope rules).parts

theorem depth_pos (place : Stop) : 0 < place.depth := by
  rcases place with expr | action
  · cases expr <;> simp [depth, Expr.depth]
  · cases action <;> simp [depth, Action.depth]

theorem depth_le_of_mem_ofItems {items : List (Spaced Expr)} {part : Stop}
    (member : part ∈ ofItems items) : part.depth ≤ depthItems items := by
  induction items with
  | nil => cases member
  | cons item rest ih =>
      rw [depthItems]
      obtain rfl | later := List.mem_cons.mp member
      · exact Nat.le_max_left _ _
      · exact Nat.le_trans (ih later) (Nat.le_max_right _ _)

theorem depth_le_of_mem_ofStmts {stmts : List (Stmt Action)} {part : Stop}
    (member : part ∈ ofStmts stmts) : part.depth ≤ depthStmts stmts := by
  induction stmts with
  | nil => cases member
  | cons stmt rest ih =>
      rw [depthStmts]
      obtain rfl | later := List.mem_cons.mp member
      · exact Nat.le_max_left _ _
      · exact Nat.le_trans (ih later) (Nat.le_max_right _ _)

/-- The parts of a place are less deep than the place. -/
theorem depth_lt_of_mem_parts {place part : Stop} (member : part ∈ place.parts) :
    part.depth < place.depth := by
  rcases place with expr | action
  · cases expr with
    | ident => cases member
    | selector lead operand dot name tail =>
        obtain rfl := List.mem_singleton.mp member
        exact Nat.lt_succ_self _
    | call lead callee arguments =>
        obtain rfl | later := List.mem_cons.mp member
        · exact Nat.lt_succ_of_le (Nat.le_max_left _ _)
        · exact Nat.lt_succ_of_le
            (Nat.le_trans (depth_le_of_mem_ofItems later) (Nat.le_max_right _ _))
    | literal lead type elements =>
        obtain rfl | later := List.mem_cons.mp member
        · exact Nat.lt_succ_of_le (Nat.le_max_left _ _)
        · exact Nat.lt_succ_of_le
            (Nat.le_trans (depth_le_of_mem_ofItems later) (Nat.le_max_right _ _))
    | elements row => exact Nat.lt_succ_of_le (depth_le_of_mem_ofItems member)
    | keyed lead key colon value tail =>
        obtain rfl | later := List.mem_cons.mp member
        · exact Nat.lt_succ_of_le (Nat.le_max_left _ _)
        · obtain rfl := List.mem_singleton.mp later
          exact Nat.lt_succ_of_le (Nat.le_max_right _ _)
    | function head body =>
        obtain ⟨opening, stmts, closing⟩ := body
        rw [depth, Expr.depth, depthBlock]
        exact Nat.lt_succ_of_le (depth_le_of_mem_ofStmts member)
    | other kind row => exact Nat.lt_succ_of_le (depth_le_of_mem_ofItems member)
  · cases action with
    | expression lead value tail =>
        obtain rfl := List.mem_singleton.mp member
        exact Nat.lt_succ_self _
    | assignment targets values =>
        obtain early | later := List.mem_append.mp member
        · exact Nat.lt_succ_of_le
            (Nat.le_trans (depth_le_of_mem_ofItems early) (Nat.le_max_left _ _))
        · exact Nat.lt_succ_of_le
            (Nat.le_trans (depth_le_of_mem_ofItems later) (Nat.le_max_right _ _))
    | results row => exact Nat.lt_succ_of_le (depth_le_of_mem_ofItems member)
    | verbatim => cases member

variable {scope : Scope} {rules : List UnwrapRule}

theorem depth_rewritten_le (usual : rules ⊆ UnwrapRule.all) (place : Stop) :
    (place.rewritten scope rules).depth ≤ place.depth := by
  rcases place with expr | action
  · exact (UnwrapRule.walks_onExpr usual expr).depth_le
  · exact (UnwrapRule.walks_onAction usual action).depth_le

/-- The walk goes on to places that are less deep. -/
theorem depth_lt_of_mem_next (usual : rules ⊆ UnwrapRule.all) {later earlier : Stop}
    (member : later ∈ earlier.next scope rules) : later.depth < earlier.depth :=
  Nat.lt_of_lt_of_le (depth_lt_of_mem_parts member) (depth_rewritten_le usual earlier)

theorem depth_le_of_mem_next (usual : rules ⊆ UnwrapRule.all) {later earlier : Stop}
    {depth : Nat} (member : later ∈ earlier.next scope rules) (deep : earlier.depth ≤ depth + 1) :
    later.depth ≤ depth :=
  Nat.le_of_lt_succ (Nat.lt_of_lt_of_le (depth_lt_of_mem_next usual member) deep)

theorem wellFounded_next (scope : Scope) (usual : rules ⊆ UnwrapRule.all) :
    WellFounded fun later earlier : Stop => later ∈ earlier.next scope rules :=
  Subrelation.wf (depth_lt_of_mem_next usual) (measure depth).wf

end Stop

namespace UnwrapRule

section Below

variable {onExpr onExpr' : Expr → Expr × List UnwrapRule}
  {onAction onAction' : Action → Action × List UnwrapRule}

theorem mapItems_congr {items : List (Spaced Expr)}
    (agree : ∀ expr, .expr expr ∈ Stop.ofItems items → onExpr expr = onExpr' expr) :
    mapItems onExpr items = mapItems onExpr' items := by
  induction items with
  | nil => rfl
  | cons item rest ih =>
      rw [mapItems, mapItems, agree item.value List.mem_cons_self,
        ih fun expr member => agree expr (List.mem_cons_of_mem _ member)]

theorem mapStmts_congr {stmts : List (Stmt Action)}
    (agree : ∀ action, .action action ∈ Stop.ofStmts stmts → onAction action = onAction' action) :
    mapStmts onAction stmts = mapStmts onAction' stmts := by
  induction stmts with
  | nil => rfl
  | cons stmt rest ih =>
      rw [mapStmts, mapStmts, agree stmt.action List.mem_cons_self,
        ih fun action member => agree action (List.mem_cons_of_mem _ member)]

/-- What happens below an expression depends on its parts only. -/
theorem belowExpr_congr {expr : Expr}
    (exprs : ∀ part, .expr part ∈ (Stop.expr expr).parts → onExpr part = onExpr' part)
    (actions : ∀ part, .action part ∈ (Stop.expr expr).parts → onAction part = onAction' part) :
    belowExpr onExpr onAction expr = belowExpr onExpr' onAction' expr := by
  cases expr with
  | ident name => rfl
  | selector lead operand dot name tail =>
      rw [belowExpr, belowExpr, exprs operand List.mem_cons_self]
  | call lead callee arguments =>
      rw [belowExpr, belowExpr, exprs callee List.mem_cons_self,
        mapItems_congr fun part member => exprs part (List.mem_cons_of_mem _ member)]
  | literal lead type elements =>
      rw [belowExpr, belowExpr, exprs type List.mem_cons_self,
        mapItems_congr fun part member => exprs part (List.mem_cons_of_mem _ member)]
  | elements row => rw [belowExpr, belowExpr, mapItems_congr exprs]
  | keyed lead key colon value tail =>
      rw [belowExpr, belowExpr, exprs key List.mem_cons_self,
        exprs value (List.mem_cons_of_mem _ List.mem_cons_self)]
  | function head body => rw [belowExpr, belowExpr, mapStmts_congr actions]
  | other kind row => rw [belowExpr, belowExpr, mapItems_congr exprs]

theorem belowAction_congr {action : Action}
    (exprs : ∀ part, .expr part ∈ (Stop.action action).parts → onExpr part = onExpr' part) :
    belowAction onExpr action = belowAction onExpr' action := by
  cases action with
  | expression lead value tail => rw [belowAction, belowAction, exprs value List.mem_cons_self]
  | assignment targets values =>
      rw [belowAction, belowAction,
        mapItems_congr fun part member => exprs part (List.mem_append_left _ member),
        mapItems_congr fun part member => exprs part (List.mem_append_right _ member)]
  | results row => rw [belowAction, belowAction, mapItems_congr exprs]
  | verbatim text => rfl

end Below

section Depth

variable {scope : Scope} {rules : List UnwrapRule}

/-- The walk gives the same from a place on, to whichever depth it goes, if only that
is no less than the depth of the place. -/
theorem applyAt_eq (usual : rules ⊆ all) (depth deeper : Nat) :
    (∀ expr : Expr, expr.depth ≤ depth → expr.depth ≤ deeper →
      applyExpr scope rules depth expr = applyExpr scope rules deeper expr) ∧
    (∀ action : Action, action.depth ≤ depth → action.depth ≤ deeper →
      applyAction scope rules depth action = applyAction scope rules deeper action) := by
  induction depth generalizing deeper with
  | zero =>
      refine ⟨fun expr le _ => ?_, fun action le _ => ?_⟩
      · exact absurd (Stop.expr expr).depth_pos (Nat.not_lt.mpr le)
      · exact absurd (Stop.action action).depth_pos (Nat.not_lt.mpr le)
  | succ depth ih =>
      cases deeper with
      | zero =>
          refine ⟨fun expr _ le => ?_, fun action _ le => ?_⟩
          · exact absurd (Stop.expr expr).depth_pos (Nat.not_lt.mpr le)
          · exact absurd (Stop.action action).depth_pos (Nat.not_lt.mpr le)
      | succ deeper =>
          -- The parts that come next are parts of what a rule has made of the place, and
          -- still less deep than the place was before.
          obtain ⟨exprs, actions⟩ := ih deeper
          refine ⟨fun expr le le' => ?_, fun action le le' => ?_⟩
          · have hparts : ∀ part ∈ (Stop.expr expr).next scope rules,
                part.depth ≤ depth ∧ part.depth ≤ deeper := fun _ member =>
              ⟨Stop.depth_le_of_mem_next usual member le,
                Stop.depth_le_of_mem_next usual member le'⟩
            simp only [applyExpr]
            rw [belowExpr_congr
              (fun part member => exprs part (hparts _ member).1 (hparts _ member).2)
              (fun part member => actions part (hparts _ member).1 (hparts _ member).2)]
          · have hparts : ∀ part ∈ (Stop.action action).next scope rules,
                part.depth ≤ depth ∧ part.depth ≤ deeper := fun _ member =>
              ⟨Stop.depth_le_of_mem_next usual member le,
                Stop.depth_le_of_mem_next usual member le'⟩
            simp only [applyAction]
            rw [belowAction_congr
              fun part member => exprs part (hparts _ member).1 (hparts _ member).2]

/-- No depth beyond that of the statements changes what becomes of them. -/
theorem mapStmts_applyAction (usual : rules ⊆ all) {stmts : List (Stmt Action)} {depth : Nat}
    (deep : depthStmts stmts ≤ depth) :
    mapStmts (applyAction scope rules depth) stmts = apply scope rules stmts := by
  refine mapStmts_congr fun action member => ?_
  have hle : action.depth ≤ depthStmts stmts := Stop.depth_le_of_mem_ofStmts member
  exact (applyAt_eq usual depth (depthStmts stmts)).2 action (Nat.le_trans hle deep) hle

end Depth

/-! ## What unwrapping does -/

theorem total_foldl_add (names : List Text) (counts : Tally) :
    (names.foldl (fun total name => Tally.add name 1 total) counts).total =
      names.length + counts.total := by
  induction names generalizing counts with
  | nil => simp
  | cons name rest ih =>
      rw [List.foldl_cons, ih, Tally.total_add, List.length_cons]
      omega

/-- Each use of a rule is counted once. -/
theorem total_tally (used : List UnwrapRule) : (tally used).total = used.length := by
  rw [tally, Tally.ofNames, total_foldl_add, List.length_map]
  rfl

/-- Something is counted exactly if a rule was used. -/
theorem tally_eq_nil_iff (used : List UnwrapRule) : tally used = [] ↔ used = [] := by
  have htotal := total_tally used
  constructor
  · intro hnone
    rw [hnone] at htotal
    exact List.length_eq_zero_iff.mp htotal.symm
  · rintro rfl
    rfl

/-- With usual rules, each of them any number of times and in any order, the walk comes
to an end, and a depth beyond that of the statements adds nothing to it. What it makes
of the statements is reached by taking off one wrapper after the other, wrappers that
the rules name and of packages that the imports lead to; so its text is what stays of
the text when some is deleted. No rule is counted exactly if the statements stay as
they are. -/
theorem apply_only_strips (scope : Scope) (rules : List UnwrapRule) (usual : rules ⊆ all)
    (stmts : List (Stmt Action)) :
    let result := apply scope rules stmts
    (WellFounded fun later earlier : Stop => later ∈ earlier.next scope rules) ∧
    (∀ depth, depthStmts stmts ≤ depth →
      mapStmts (applyAction scope rules depth) stmts = result) ∧
    Relation.ReflTransGen (Strips scope (rules.flatMap wrappers) .stmts) stmts result.1 ∧
    List.Sublist (printStmts result.1) (printStmts stmts) ∧
    (tally result.2 = [] ↔ result.1 = stmts) := by
  intro result
  have unwraps : Unwraps scope (rules.flatMap wrappers) .stmts result.2.isEmpty stmts result.1 :=
    walks_apply usual stmts
  refine ⟨Stop.wellFounded_next scope usual, fun depth deep => mapStmts_applyAction usual deep,
    unwraps.reflTransGen, unwraps.print_sublist, ?_⟩
  rw [tally_eq_nil_iff, ← List.isEmpty_iff]
  exact unwraps.idle_iff

/-- A file that imports one instrumentation package. -/
def instrumentScope : Scope :=
  let path := "github.com/datadog/orchestrion/instrument".toList
  ⟨[⟨none, path⟩], [path]⟩

/-- The call of a function of that package with one argument. -/
def instrumentCall (function : String) (argument : Expr) : Expr :=
  .call [] (.selector [] (.ident "instrument".toList) ['.'] function.toList [])
    ⟨['('], [⟨argument, [')']⟩]⟩

/-- The assignment of a value to a variable. -/
def assigned (value : Expr) : Stmt Action :=
  ⟨[], [], .assignment ⟨[], [⟨.ident ['c'], [' ']⟩]⟩ ⟨":= ".toList, [⟨value, []⟩]⟩, [], [], 1⟩

theorem apply_only_strips_wrappedClient :
    let rules := [grpc, client, grpc]
    let stmts := [assigned (instrumentCall "WrapHTTPClient"
      (instrumentCall "WrapGRPCClientConn" (.ident ['d'])))]
    let result := apply instrumentScope rules stmts
    rules ⊆ all ∧
    (WellFounded fun later earlier : Stop => later ∈ earlier.next instrumentScope rules) ∧
    (∀ depth, depthStmts stmts ≤ depth →
      mapStmts (applyAction instrumentScope rules depth) stmts = result) ∧
    Relation.ReflTransGen (Strips instrumentScope (rules.flatMap wrappers) .stmts) stmts
      result.1 ∧
    List.Sublist (printStmts result.1) (printStmts stmts) ∧
    (tally result.2 = [] ↔ result.1 = stmts) ∧
    printStmts result.1 = "c := d".toList ∧
    tally result.2 = [("client".toList, 1), ("grpc".toList, 1)] := by
  intro rules stmts result
  have usual : rules ⊆ all := by simp [rules, all]
  obtain ⟨ends, deep, strips, sublist, counts⟩ :=
    apply_only_strips instrumentScope rules usual stmts
  exact ⟨usual, ends, deep, strips, sublist, counts, by decide, by decide⟩

end UnwrapRule

end Deinstrument
