import Deinstrument.Proofs.Passes
import Deinstrument.Proofs.Run

/-!
# One level down

Blocks are stripped at two levels: the bodies of functions, and the bodies of the
function values that the statements left there hold directly. Stripping a block never
looks into its statements. So a statement is the same before and after but for these
bodies, whatever blocks stand elsewhere in it: in arguments, results or targets, behind
an operator, or in another function value.
-/

namespace Deinstrument

/-! ## Statements that are left -/

section Blocks

variable {Action : Type}

/-- Removing regions leaves some of the statements, in their order. -/
theorem Region.remove_among (block : Block Action) :
    Stmt.Among block.stmts (remove block).1.stmts := by
  induction block using remove_induction with
  | nil opening closing => exact .of_sublist (.refl _)
  | keep opening stmt rest closing result shut ih => exact .cons (.refl stmt) ih
  | drop opening stmt rest closing result opened ih =>
      exact .cons (staysAs_openedAt stmt).toSameAs ih
  | cut opening stmt rest closing inside outside result opened closed ih =>
      obtain ⟨interval, back, hstmts, nonempty, -, houtside⟩ := close_interval closed
      obtain ⟨first, more, rfl⟩ := List.exists_cons_of_ne_nil nonempty
      obtain ⟨-, rfl⟩ := List.cons.inj hstmts
      have hback : Stmt.Among (stmt :: (more ++ back)) back :=
        .of_sublist (List.sublist_append_right (stmt :: more) back)
      have houtside : Stmt.Among back outside := by
        rcases houtside with rfl | ⟨next, later, rfl, rfl⟩
        · exact .of_sublist (.refl _)
        · have same : Stmt.SameAs (next.stripBefore .regionEnd).1 next := ⟨rfl, rfl, rfl⟩
          exact .change same [] later
      have hmoved (moved : List Text) : Stmt.Among outside
          (Block.addAbove moved ⟨opening, outside, closing⟩).stmts := by
        cases outside with
        | nil => exact .of_sublist (.refl _)
        | cons next later =>
            have same : Stmt.SameAs (next.attach moved) next := ⟨rfl, rfl, rfl⟩
            exact .change same [] later
      exact ((hback.trans houtside).trans (hmoved _)).trans ih

/-- Removing spans leaves some of the statements, in their order. -/
theorem Span.remove_among (block : Block Action) :
    Stmt.Among block.stmts (remove block).1.stmts := by
  have hscan (block : Block Action) :
      Stmt.Among block.stmts ((scan block.stmts).1.applyTo block).stmts :=
    scanFrom_among block [] [] block.stmts
  induction block using remove_induction with
  | done block stmts tags scanned =>
      have hdone := hscan block
      rw [scanned] at hdone
      exact hdone
  | more block result ih => exact (hscan block).trans ih

end Blocks

namespace Engine

theorem stripBlock_among (engine : Engine) (scope : Scope) (block : Block Action) :
    Stmt.Among block.stmts (engine.stripBlock scope block).1.stmts :=
  (Region.remove_among block).trans (Span.remove_among _)

/-! ## Changes one level down -/

section Changes

variable (change : Block Action → Block Action)

/-- An element of a literal before and after: a function value behind a key gets another
body, and nothing else is different. -/
inductive ElementChanges : Expr → Expr → Prop
  | keyed (lead : Text) (key : Expr) (colon head : Text) (body : Block Action) (tail : Text) :
      ElementChanges (.keyed lead key colon (.function head body) tail)
        (.keyed lead key colon (.function head (change body)) tail)
  | same {code : Expr} (plain : elementBodies code = []) : ElementChanges code code

/-- Items before and after: each one has changed in some way, and the gaps are the same. -/
def ItemsChange (relation : Expr → Expr → Prop) : List (Spaced Expr) → List (Spaced Expr) → Prop :=
  List.Forall₂ fun item changed => relation item.value changed.value ∧ changed.gap = item.gap

/-- An assigned value before and after. -/
inductive ValueChanges : Expr → Expr → Prop
  | function (head : Text) (body : Block Action) :
      ValueChanges (.function head body) (.function head (change body))
  | literal (lead : Text) (type : Expr) (gap : Text) {items changed : List (Spaced Expr)}
      (elements : ItemsChange (ElementChanges change) items changed) :
      ValueChanges (.literal lead type ⟨gap, items⟩) (.literal lead type ⟨gap, changed⟩)
  | elements (gap : Text) {items changed : List (Spaced Expr)}
      (elements : ItemsChange (ElementChanges change) items changed) :
      ValueChanges (.elements ⟨gap, items⟩) (.elements ⟨gap, changed⟩)
  | same {code : Expr} (plain : valueBodies code = []) : ValueChanges code code

/-- An action before and after: the function values that it assigns, those behind the keys
of a literal that it assigns and one that it calls get other bodies, and nothing else is
different. -/
inductive ActionChanges : Action → Action → Prop
  | assignment (targets : Row Expr) (gap : Text) {items changed : List (Spaced Expr)}
      (values : ItemsChange (ValueChanges change) items changed) :
      ActionChanges (.assignment targets ⟨gap, items⟩) (.assignment targets ⟨gap, changed⟩)
  | called (lead start head : Text) (body : Block Action) (arguments : Row Expr) (tail : Text) :
      ActionChanges (.expression lead (.call start (.function head body) arguments) tail)
        (.expression lead (.call start (.function head (change body)) arguments) tail)
  | same {code : Action} (plain : actionBodies code = []) : ActionChanges code code

/-- A statement before and after: the bodies of the function values that it holds directly
are changed, and these bodies stand in a frame of text that is the same. -/
structure StmtChanges (stmt changed : Stmt Action) : Prop where
  action : ActionChanges change stmt.action changed.action
  around : changed = { stmt with action := changed.action }
  framed : ∃ frame : Row (Block Action),
    frame.values = actionBodies stmt.action ∧
    stmt.action.print = frame.weave printBlock ∧
    changed.action.print = frame.weave fun body => printBlock (change body)

/-- An item of a file before and after: text and declarations without a body are the same,
and so is the head of a function. In its body, what a change leaves of the statements is
changed one level down. -/
inductive ItemChanges : Item → Item → Prop
  | text (source : Text) : ItemChanges (.text source) (.text source)
  | bodiless (name head : Text) :
      ItemChanges (.function ⟨name, head, none⟩) (.function ⟨name, head, none⟩)
  | function (name head : Text) (body : Block Action) {stmts : List (Stmt Action)}
      (changes : List.Forall₂ (StmtChanges change) (change body).stmts stmts) :
      ItemChanges (.function ⟨name, head, some body⟩)
        (.function ⟨name, head, some { change body with stmts }⟩)

end Changes

section Walks

variable (change : Block Action → Block Action × Removal)

theorem onElement_changes (code : Expr) :
    ElementChanges (fun body => (change body).1) code (onElement change code).1 := by
  cases code with
  | keyed lead key colon value tail =>
      cases value with
      | function head body => exact .keyed lead key colon head body tail
      | _ => exact .same rfl
  | _ => exact .same rfl

theorem onItems_changes {relation : Expr → Expr → Prop} {on : Expr → Expr × List Removal}
    (each : ∀ code, relation code (on code).1) (items : List (Spaced Expr)) :
    ItemsChange relation items (onItems on items).1 := by
  induction items with
  | nil => exact .nil
  | cons item rest ih => exact .cons ⟨each item.value, rfl⟩ ih

theorem onValue_changes (code : Expr) :
    ValueChanges (fun body => (change body).1) code (onValue change code).1 := by
  cases code with
  | literal lead type row =>
      exact .literal lead type row.lead (onItems_changes (onElement_changes change) row.items)
  | elements row => exact .elements row.lead (onItems_changes (onElement_changes change) row.items)
  | function head body => exact .function head body
  | _ => exact .same rfl

theorem onClosures_changes (code : Action) :
    ActionChanges (fun body => (change body).1) code (onClosures change code).1 := by
  cases code with
  | assignment targets values =>
      exact .assignment targets values.lead (onItems_changes (onValue_changes change) values.items)
  | expression lead value tail =>
      cases value with
      | call start callee arguments =>
          cases callee with
          | function head body => exact .called lead start head body arguments tail
          | _ => exact .same rfl
      | _ => exact .same rfl
  | _ => exact .same rfl

theorem onStmts_changes (stmts : List (Stmt Action)) :
    List.Forall₂ (StmtChanges fun body => (change body).1) stmts (onStmts change stmts).1 := by
  induction stmts with
  | nil => exact .nil
  | cons stmt rest ih =>
      refine .cons ⟨onClosures_changes change stmt.action, rfl, ?_⟩ ih
      obtain ⟨frame, hvalues, htext, hresult⟩ := (onClosures_walk stmt.action).framed
      exact ⟨frame, hvalues, htext.symm, hresult change⟩

end Walks

/-! ## Files -/

section Files

variable (engine : Engine) (scope : Scope)

theorem processItem_changes (report : Report) (item : Item) :
    ItemChanges (fun block => (engine.stripBlock scope block).1) item
      (engine.processItem scope report item).1 := by
  cases item with
  | text source => exact .text source
  | function decl =>
      obtain ⟨name, head, body⟩ := decl
      cases body with
      | none => exact .bodiless name head
      | some body =>
          exact .function name head body (onStmts_changes (engine.stripBlock scope) _)

theorem processItems_changes (report : Report) (items : List Item) :
    List.Forall₂ (ItemChanges fun block => (engine.stripBlock scope block).1) items
      (engine.processItems scope report items).1 := by
  induction items generalizing report with
  | nil => exact .nil
  | cons item rest ih => exact .cons (engine.processItem_changes scope report item) (ih _)

theorem closures_foldl_addRemoval (report : Report) (removals : List Removal) :
    (removals.foldl addRemoval report).closures = report.closures := by
  induction removals generalizing report with
  | nil => rfl
  | cons removal rest ih => exact ih (addRemoval report removal)

theorem closures_processItem (report : Report) (item : Item) :
    (engine.processItem scope report item).2.closures =
      report.closures + ((Code.bodies [item]).flatMap fun body =>
        closureBodies (engine.stripBlock scope body).1.stmts).length := by
  cases item with
  | text source => rfl
  | function decl =>
      obtain ⟨name, head, body⟩ := decl
      cases body with
      | none => rfl
      | some body =>
          have hwalk := onStmts_walk (engine.stripBlock scope body).1.stmts
          simp only [processItem, processBody, closures_foldl_addRemoval, hwalk.removals,
            List.length_map]
          simp [Code.bodies]

theorem closures_processItems (report : Report) (items : List Item) :
    (engine.processItems scope report items).2.closures =
      report.closures + ((Code.bodies items).flatMap fun body =>
        closureBodies (engine.stripBlock scope body).1.stmts).length := by
  induction items generalizing report with
  | nil => rfl
  | cons item rest ih =>
      rw [processItems, ih, closures_processItem, Code.bodies_cons item rest,
        List.flatMap_append, List.length_append, Nat.add_assoc]

/-- Processing a file touches no more than one level of function values. Stripping a block
leaves some of its statements, in their order and with the same actions. Item by item,
texts, declarations without a body and heads stay the same, and a function keeps the
statements that stripping its body leaves, with the bodies of the function values that
they hold directly stripped as well: all else in them is the same, in the code and in the
text around these bodies. The report counts these bodies. -/
theorem processItems_one_level (report : Report) (items : List Item) :
    let strip := fun block => (engine.stripBlock scope block).1
    let result := engine.processItems scope report items
    (∀ block, List.SublistForall₂ Stmt.SameAs (strip block).stmts block.stmts) ∧
    List.Forall₂ (ItemChanges strip) items result.1 ∧
    result.2.closures = report.closures +
      ((Code.bodies items).flatMap fun body => closureBodies (strip body).stmts).length :=
  ⟨engine.stripBlock_among scope, engine.processItems_changes scope report items,
    engine.closures_processItems scope report items⟩

/-- What stands behind an operator is not held directly. -/
example (targets : Row Expr) (gap lead : Text) (operand : Expr) (tail behind : Text) :
    actionBodies (.assignment targets
      ⟨gap, [⟨.other .unaryExpression ⟨lead, [⟨operand, tail⟩]⟩, behind⟩]⟩) = [] :=
  rfl

end Files

end Engine

end Deinstrument
