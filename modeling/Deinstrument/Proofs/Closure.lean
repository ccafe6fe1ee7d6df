import Deinstrument.Engine
import Deinstrument.Proofs.Printing
import Deinstrument.Proofs.Removal
import Mathlib.Algebra.GroupWithZero.Nat

/-!
# Function values of statements

The bodies that are stripped besides the body of a function are those of the
function values that its statements hold directly. Changing them keeps all
text around them, so what happens to a list of statements follows from what
happens to each of these bodies.
-/

namespace Deinstrument

/-! ## Rows side by side -/

namespace Row

variable {α : Type}

theorem weave_congr {text text' : α → Text} (row : Row α)
    (same : ∀ value ∈ row.values, text value = text' value) :
    row.weave text = row.weave text' := by
  obtain ⟨lead, items⟩ := row
  refine congrArg (lead ++ ·) ?_
  induction items with
  | nil => rfl
  | cons item rest ih =>
      rw [textOf, textOf, same item.value List.mem_cons_self,
        ih fun value member => same value (List.mem_cons_of_mem _ member)]

/-- What is deleted from each item is deleted from the row. -/
theorem weave_deletion {text text' : α → Text} {least : α → Nat} (row : Row α)
    (deletes : ∀ value, Text.Deletion (least value) (text' value) (text value)) :
    Text.Deletion (row.values.map least).sum (row.weave text') (row.weave text) := by
  obtain ⟨lead, items⟩ := row
  have hitems : Text.Deletion ((items.map (·.value)).map least).sum (textOf text' items)
      (textOf text items) := by
    induction items with
    | nil => exact .refl []
    | cons item rest ih =>
        exact ((deletes item.value).append (.refl item.gap)).append ih
  simpa [values, weave] using (Text.Deletion.refl lead).append hitems

/-- Two rows as one: the gap at the end of the first one takes the text in front of the
second one. -/
def append (first second : Row α) : Row α :=
  let pushed := first.push second.lead
  ⟨pushed.lead, pushed.items ++ second.items⟩

theorem weave_append (text : α → Text) (first second : Row α) :
    (first.append second).weave text = first.weave text ++ second.weave text := by
  have hpush := weave_push text first second.lead
  simp only [weave] at hpush
  simp only [append, weave, textOf_append, ← List.append_assoc, hpush]

theorem values_extendLast (added : Text) (items : List (Spaced α)) :
    (extendLast added items).map (·.value) = items.map (·.value) := by
  induction items with
  | nil => rfl
  | cons first rest ih =>
      cases rest with
      | nil => rfl
      | cons second more => exact congrArg (first.value :: ·) ih

theorem values_append (first second : Row α) :
    (first.append second).values = first.values ++ second.values := by
  obtain ⟨lead, items⟩ := first
  cases items with
  | nil => rfl
  | cons item rest =>
      simp only [append, push, values, List.map_append, values_extendLast]

end Row

namespace Engine

open Text (Deletion)

/-! ## The bodies -/

/-- The body of a function value. -/
def functionBodies : Expr → List (Block Action)
  | .function _ body => [body]
  | _ => []

/-- The body of the function value of an element with a key. -/
def elementBodies : Expr → List (Block Action)
  | .keyed _ _ _ value _ => functionBodies value
  | _ => []

/-- The body of an assigned function value, or those of the elements of an
assigned literal. -/
def valueBodies : Expr → List (Block Action)
  | .literal _ _ ⟨_, items⟩ => items.flatMap fun item => elementBodies item.value
  | .elements ⟨_, items⟩ => items.flatMap fun item => elementBodies item.value
  | expr => functionBodies expr

/-- The bodies of the function values that an action assigns or calls. -/
def actionBodies : Action → List (Block Action)
  | .assignment _ ⟨_, values⟩ => values.flatMap fun item => valueBodies item.value
  | .expression _ (.call _ callee _) _ => functionBodies callee
  | _ => []

/-- The bodies of the function values that statements hold directly. -/
def closureBodies (stmts : List (Stmt Action)) : List (Block Action) :=
  stmts.flatMap fun stmt => actionBodies stmt.action

/-! ## Walks -/

/-- A walk over the bodies in a text. Its result is a new text and the removals
reported on the way, for each change of the bodies. -/
structure Walk (text : Text) (bodies : List (Block Action))
    (result : (Block Action → Block Action × Removal) → Text × List Removal) : Prop where
  /-- The bodies stand in a frame of text that no change of them touches. -/
  framed : ∃ frame : Row (Block Action), frame.values = bodies ∧ frame.weave printBlock = text ∧
    ∀ change, (result change).1 = frame.weave fun body => printBlock (change body).1
  /-- Each body reports what was removed from it. -/
  removals : ∀ change : Block Action → Block Action × Removal,
    (result change).2 = bodies.map fun body => (change body).2

namespace Walk

section Changes

variable {text : Text} {bodies : List (Block Action)}
  {result : (Block Action → Block Action × Removal) → Text × List Removal}

/-- Text that is deleted from the bodies is deleted from the whole. -/
theorem deletion (walk : Walk text bodies result)
    (change : Block Action → Block Action × Removal) (least : Block Action → Nat)
    (deletes : ∀ body, Deletion (least body) (printBlock (change body).1) (printBlock body)) :
    Deletion (bodies.map least).sum (result change).1 text := by
  obtain ⟨frame, rfl, rfl, hresult⟩ := walk.framed
  rw [hresult]
  exact frame.weave_deletion deletes

/-- Without a change of the bodies the text stays the same. -/
theorem unchanged (walk : Walk text bodies result)
    (change : Block Action → Block Action × Removal)
    (same : ∀ body ∈ bodies, (change body).1 = body) : (result change).1 = text := by
  obtain ⟨frame, rfl, rfl, hresult⟩ := walk.framed
  rw [hresult]
  exact frame.weave_congr fun body member => congrArg printBlock (same body member)

end Changes

/-- A text without bodies. -/
theorem plain (text : Text) : Walk text [] fun _ => (text, []) where
  framed := ⟨.ofText text, rfl, by simp [Row.ofText, Row.weave, Row.textOf],
    fun _ => by simp [Row.ofText, Row.weave, Row.textOf]⟩
  removals _ := rfl

/-- A single body. -/
theorem body (block : Block Action) :
    Walk (printBlock block) [block] fun change => (printBlock (change block).1, [(change block).2]) where
  framed := ⟨⟨[], [⟨block, []⟩]⟩, rfl, by simp [Row.weave, Row.textOf],
    fun _ => by simp [Row.weave, Row.textOf]⟩
  removals _ := rfl

/-- One walk after another. -/
theorem append {text text' : Text} {bodies bodies' : List (Block Action)}
    {result result' : (Block Action → Block Action × Removal) → Text × List Removal}
    (first : Walk text bodies result) (second : Walk text' bodies' result') :
    Walk (text ++ text') (bodies ++ bodies') fun change =>
      ((result change).1 ++ (result' change).1, (result change).2 ++ (result' change).2) where
  framed := by
    obtain ⟨frame, rfl, rfl, hresult⟩ := first.framed
    obtain ⟨frame', rfl, rfl, hresult'⟩ := second.framed
    refine ⟨frame.append frame', frame.values_append frame', frame.weave_append _ frame', ?_⟩
    intro change
    rw [hresult, hresult', Row.weave_append]
  removals change := by
    rw [first.removals, second.removals, List.map_append]

theorem of_eq {text text' : Text} {bodies bodies' : List (Block Action)}
    {result result' : (Block Action → Block Action × Removal) → Text × List Removal}
    (walk : Walk text bodies result) (htext : text' = text) (hbodies : bodies' = bodies)
    (hresult : ∀ change, result' change = result change) : Walk text' bodies' result' := by
  rw [htext, hbodies, funext hresult]
  exact walk

/-- A walk in the middle of a text. -/
theorem within (front : Text) {text : Text} {bodies : List (Block Action)}
    {result : (Block Action → Block Action × Removal) → Text × List Removal}
    (walk : Walk text bodies result) (back : Text) :
    Walk (front ++ text ++ back) bodies fun change =>
      (front ++ (result change).1 ++ back, (result change).2) :=
  (((plain front).append walk).append (plain back)).of_eq rfl (by simp) fun _ => by simp

end Walk

/-! ## Walks over code -/

theorem onFunction_walk (expr : Expr) :
    Walk expr.print (functionBodies expr) fun change =>
      ((onFunction change expr).1.print, (onFunction change expr).2) := by
  cases expr with
  | function head block =>
      exact (((Walk.plain head).append (Walk.body block))).of_eq rfl rfl fun _ => rfl
  | _ => exact Walk.plain _

theorem onElement_walk (expr : Expr) :
    Walk expr.print (elementBodies expr) fun change =>
      ((onElement change expr).1.print, (onElement change expr).2) := by
  cases expr with
  | keyed lead key colon value tail =>
      exact ((onFunction_walk value).within (lead ++ key.print ++ colon) tail).of_eq
        rfl rfl fun _ => rfl
  | _ => exact Walk.plain _

/-- A walk over each of several expressions is one over all of them. -/
theorem onItems_walk {bodies : Expr → List (Block Action)}
    {on : (Block Action → Block Action × Removal) → Expr → Expr × List Removal}
    (each : ∀ expr, Walk expr.print (bodies expr) fun change =>
      ((on change expr).1.print, (on change expr).2))
    (items : List (Spaced Expr)) :
    Walk (printItems items) (items.flatMap fun item => bodies item.value) fun change =>
      (printItems (onItems (on change) items).1, (onItems (on change) items).2) := by
  induction items with
  | nil => exact Walk.plain []
  | cons item rest ih =>
      obtain ⟨value, gap⟩ := item
      have first := (each value).append (Walk.plain gap)
      exact (first.append ih).of_eq rfl (by simp) fun _ => by simp [onItems, printItems]

theorem onValue_walk (expr : Expr) :
    Walk expr.print (valueBodies expr) fun change =>
      ((onValue change expr).1.print, (onValue change expr).2) := by
  cases expr with
  | literal lead type row =>
      obtain ⟨gap, items⟩ := row
      exact ((onItems_walk onElement_walk items).within (lead ++ type.print ++ gap) []).of_eq
        (by simp [Expr.print]) rfl fun _ => by simp [onValue, Row.weave, printItems_eq]
  | elements row =>
      obtain ⟨gap, items⟩ := row
      exact ((onItems_walk onElement_walk items).within gap []).of_eq
        (by simp [Expr.print]) rfl fun _ => by simp [onValue, Row.weave, printItems_eq]
  | function head block => exact onFunction_walk (.function head block)
  | _ => exact Walk.plain _

theorem onClosures_walk (action : Action) :
    Walk action.print (actionBodies action) fun change =>
      ((onClosures change action).1.print, (onClosures change action).2) := by
  cases action with
  | assignment targets values =>
      obtain ⟨lead, targets⟩ := targets
      obtain ⟨gap, values⟩ := values
      exact ((onItems_walk onValue_walk values).within (lead ++ printItems targets ++ gap)
        []).of_eq (by simp [Action.print]) rfl
          fun _ => by simp [onClosures, Row.weave, printItems_eq]
  | expression lead value tail =>
      cases value with
      | call start callee row =>
          exact ((onFunction_walk callee).within (lead ++ start)
            (row.weave Expr.print ++ tail)).of_eq (by simp [Action.print]) rfl
              fun _ => by simp [onClosures, Action.print]
      | _ => exact Walk.plain _
  | _ => exact Walk.plain _

/-- The text of statements depends on the bodies of their function values only
through the text of these bodies. -/
theorem onStmts_walk (stmts : List (Stmt Action)) :
    Walk (printStmts stmts) (closureBodies stmts) fun change =>
      (printStmts (onStmts change stmts).1, (onStmts change stmts).2) := by
  induction stmts with
  | nil => exact Walk.plain []
  | cons stmt rest ih =>
      obtain ⟨before, space, action, terminator, after, line⟩ := stmt
      have first := (onClosures_walk action).within (before.flatten ++ space)
        (terminator ++ after.flatten)
      exact (first.append ih).of_eq (by simp [printStmts]) rfl
        fun _ => by simp [onStmts, printStmts]

end Engine

end Deinstrument
