import Deinstrument.Proofs.Rescan
import Deinstrument.Proofs.Run

/-!
# Normal forms of stripped blocks

Stripping a block leaves no marker on which a run acts. The regions go first,
and no scan for spans puts a start marker back: the comments that it moves were
above a statement without one, or are no markers at all. The last of these
scans meets no end of a span and drops every tag that it meets. Stripping a
stripped block is therefore idle, and so it is for the function values in it.
-/

namespace Deinstrument

section Removal

variable {Action : Type}

/-- No marker of the kind stands above any of the statements. -/
def Marker.AboveNone (marker : Marker) (stmts : List (Stmt Action)) : Prop :=
  ∀ stmt ∈ stmts, marker ∉ stmt.marksBefore

namespace Marker.AboveNone

variable {marker : Marker}

@[simp]
theorem nil : marker.AboveNone ([] : List (Stmt Action)) := by
  simp [AboveNone]

@[simp]
theorem cons_iff {stmt : Stmt Action} {rest : List (Stmt Action)} :
    marker.AboveNone (stmt :: rest) ↔ marker ∉ stmt.marksBefore ∧ marker.AboveNone rest :=
  List.forall_mem_cons

@[simp]
theorem append_iff {front back : List (Stmt Action)} :
    marker.AboveNone (front ++ back) ↔ marker.AboveNone front ∧ marker.AboveNone back :=
  List.forall_mem_append

/-- What moves in a cut carries no marker that was not among the carried
comments. -/
theorem apply (block : Block Action) {cut : Cut Action} (hfront : marker.AboveNone cut.front)
    (hcarried : marker ∉ Marker.among cut.carried) (hback : marker.AboveNone cut.back) :
    marker.AboveNone (cut.apply block).stmts := by
  have hmoved := cut.among_moved
  obtain ⟨front, removed, carried, back⟩ := cut
  cases back with
  | nil => exact hfront
  | cons next later =>
      rw [cons_iff] at hback
      simp only [Cut.apply, append_iff, cons_iff, Stmt.marksBefore_attach, List.mem_append, hmoved]
      exact ⟨hfront, not_or.mpr ⟨hcarried, hback.1⟩, hback.2⟩

/-- Cutting out a span puts no marker above what is left. -/
theorem apply_cutOut (block : Block Action) {front inside back : List (Stmt Action)}
    (hfront : marker.AboveNone front) (hinside : marker.AboveNone inside)
    (hback : marker.AboveNone back) :
    marker.AboveNone ((Span.cutOut front inside back).apply block).stmts := by
  cases inside with
  | nil => exact apply block hfront List.not_mem_nil hback
  | cons first rest =>
      obtain ⟨carried, left, hdetach, hbefore⟩ := first.detach_eq .spanStart
      refine apply block hfront ?_ hback
      simp only [Span.cutOut, hdetach]
      intro member
      refine (cons_iff.mp hinside).1 ?_
      rw [Stmt.marksBefore, ← hbefore, Marker.among_append]
      exact List.mem_append_left _ member

/-- A scan for spans puts no marker above what is left. -/
theorem applyTo_scanFrom (block : Block Action) {front inside rest : List (Stmt Action)}
    (absent : marker.AboveNone (front ++ inside ++ rest)) :
    marker.AboveNone ((Span.scanFrom front inside rest).1.applyTo block).stmts := by
  induction rest generalizing front inside with
  | nil => simpa [Span.scanFrom, Span.Scan.applyTo] using absent
  | cons stmt rest ih =>
      obtain ⟨front', inside', hjoin, hscan⟩ := Span.scanFrom_cons front inside stmt rest
      rw [← hjoin] at absent
      simp only [append_iff, cons_iff] at absent
      obtain ⟨⟨hfront, hinside⟩, hstmt, hrest⟩ := absent
      have hstrip (kind : Marker) : marker ∉ (stmt.stripBefore kind).1.marksBefore := by
        simp [hstmt]
      rw [hscan]
      split
      · split
        · simp [Span.Scan.applyTo, hfront, hstmt, hrest]
        · exact apply_cutOut block hfront hinside (cons_iff.mpr ⟨hstrip .spanEnd, hrest⟩)
      · split
        · exact apply_cutOut block hfront (append_iff.mpr ⟨hinside, by simpa using hstmt⟩) hrest
        · split
          · exact ih (by simp [hfront, hinside, hstmt, hrest])
          · exact ih (by simp [hfront, hinside, hstmt, hrest])

end Marker.AboveNone

theorem Region.opens_eq_false_iff {stmts : List (Stmt Action)} :
    opens stmts = false ↔ Marker.regionStart.AboveNone stmts := by
  simp only [opens, List.any_eq_false, Stmt.hasBefore_iff, Marker.AboveNone]

/-- No region opens in what is left when the regions are removed. -/
theorem Region.opens_remove (block : Block Action) : opens (remove block).1.stmts = false := by
  induction block using remove_induction with
  | nil opening closing => rfl
  | keep opening stmt rest closing result shut ih => simpa [withFront, opens, shut] using ih
  | drop opening stmt rest closing result opened ih =>
      simpa [withFront, opens, hasBefore_openedAt] using ih
  | cut opening stmt rest closing inside outside result opened closed ih => exact ih

namespace Span

/-- A statement from which its tags are dropped has nothing left to act on,
provided that no span ends at it. -/
theorem acts_strip {stmt : Stmt Action} (hbefore : ¬stmt.hasBefore .spanEnd = true)
    (hafter : ¬stmt.hasAfter .spanEnd = true) : acts (stmt.strip .instrumented).1 = false := by
  simp only [Stmt.hasBefore_iff, Stmt.hasAfter_iff] at hbefore hafter
  simp [acts, Stmt.hasBefore_eq, Stmt.hasAfter_eq, hbefore, hafter]

/-- A scan that finds no span leaves nothing to act on. -/
theorem not_acts_of_scanFrom_done {front inside rest stmts : List (Stmt Action)} {tags : Nat}
    (idle : (front ++ inside).any acts = false)
    (done : scanFrom front inside rest = (.done stmts, tags)) : stmts.any acts = false := by
  induction rest generalizing front inside tags with
  | nil =>
      cases done
      exact idle
  | cons stmt rest ih =>
      obtain ⟨front', inside', hjoin, hscan⟩ := scanFrom_cons front inside stmt rest
      rw [← hjoin] at idle
      rw [hscan] at done
      by_cases hbefore : stmt.hasBefore .spanEnd = true
      · rw [if_pos hbefore] at done
        split at done <;> cases done
      · rw [if_neg hbefore] at done
        by_cases hafter : stmt.hasAfter .spanEnd = true
        · rw [if_pos hafter] at done
          cases done
        · rw [if_neg hafter] at done
          by_cases htagged : stmt.hasBefore .instrumented = true
          · rw [if_pos htagged, Prod.mk.injEq] at done
            refine ih ?_ (Prod.ext done.1 rfl)
            rw [← List.append_assoc, List.any_append, idle]
            simp [acts_strip hbefore hafter]
          · rw [if_neg htagged] at done
            refine ih ?_ done
            rw [← List.append_assoc, List.any_append, idle]
            simp [acts, hbefore, hafter, htagged]

/-- A scan for spans opens no region. -/
theorem opens_applyTo_scan {block : Block Action} (shut : Region.opens block.stmts = false) :
    Region.opens ((scan block.stmts).1.applyTo block).stmts = false := by
  rw [Region.opens_eq_false_iff] at shut ⊢
  exact Marker.AboveNone.applyTo_scanFrom block shut

/-- Removing spans leaves nothing to act on where no region opens. -/
theorem not_actionable_remove {block : Block Action} (shut : Region.opens block.stmts = false) :
    (remove block).1.isActionable = false := by
  induction block using remove_induction with
  | done block stmts tags hscan =>
      have hshut := opens_applyTo_scan shut
      rw [hscan] at hshut
      rw [Block.isActionable_eq]
      exact Bool.or_eq_false_iff.mpr ⟨hshut, not_acts_of_scanFrom_done rfl hscan⟩
  | more block result ih => exact ih (opens_applyTo_scan shut)

end Span

end Removal

namespace Engine

/-! ## The bodies of changed function values -/

variable (change : Block Action → Block Action × Removal)

theorem functionBodies_onFunction (expr : Expr) :
    functionBodies (onFunction change expr).1 =
      (functionBodies expr).map fun body => (change body).1 := by
  cases expr <;> rfl

theorem elementBodies_onElement (expr : Expr) :
    elementBodies (onElement change expr).1 =
      (elementBodies expr).map fun body => (change body).1 := by
  cases expr with
  | keyed lead key colon value tail => exact functionBodies_onFunction change value
  | _ => rfl

/-- Bodies that change with each expression change with all of them. -/
theorem bodies_onItems {bodies : Expr → List (Block Action)}
    {on : Expr → Expr × List Removal}
    (each : ∀ expr, bodies (on expr).1 = (bodies expr).map fun body => (change body).1)
    (items : List (Spaced Expr)) :
    (onItems on items).1.flatMap (fun item => bodies item.value) =
      (items.flatMap fun item => bodies item.value).map fun body => (change body).1 := by
  induction items with
  | nil => rfl
  | cons item rest ih =>
      obtain ⟨value, gap⟩ := item
      simp only [onItems, List.flatMap_cons, List.map_append, each, ih]

theorem valueBodies_onValue (expr : Expr) :
    valueBodies (onValue change expr).1 =
      (valueBodies expr).map fun body => (change body).1 := by
  cases expr with
  | literal lead type row => exact bodies_onItems change (elementBodies_onElement change) row.items
  | elements row => exact bodies_onItems change (elementBodies_onElement change) row.items
  | _ => rfl

theorem actionBodies_onClosures (action : Action) :
    actionBodies (onClosures change action).1 =
      (actionBodies action).map fun body => (change body).1 := by
  cases action with
  | assignment targets values =>
      exact bodies_onItems change (valueBodies_onValue change) values.items
  | expression lead value tail =>
      cases value with
      | call start callee row => exact functionBodies_onFunction change callee
      | _ => rfl
  | _ => rfl

/-- Changing the function values of statements changes exactly their bodies. -/
theorem closureBodies_onStmts (stmts : List (Stmt Action)) :
    closureBodies (onStmts change stmts).1 =
      (closureBodies stmts).map fun body => (change body).1 := by
  induction stmts with
  | nil => rfl
  | cons stmt rest ih =>
      simp only [closureBodies] at ih
      simp only [onStmts, closureBodies, List.flatMap_cons, List.map_append,
        actionBodies_onClosures, ih]

/-- Changing function values leaves the comments of the statements alone. -/
theorem isActionable_onStmts (stmts : List (Stmt Action)) :
    (onStmts change stmts).1.any Stmt.isActionable = stmts.any Stmt.isActionable := by
  induction stmts with
  | nil => rfl
  | cons stmt rest ih => rw [onStmts, List.any_cons, List.any_cons, ← ih]; rfl

/-! ## Stripped blocks -/

/-- A stripped block has no marker to act on. -/
theorem not_actionable_stripBlock (engine : Engine) (scope : Scope)
    (block : Block Action) :
    (engine.stripBlock scope block).1.isActionable = false :=
  Span.not_actionable_remove (Region.opens_remove block)

/-- Stripping a stripped block removes nothing. -/
theorem stripBlock_stripBlock (engine : Engine) (scope : Scope)
    (block : Block Action) :
    engine.stripBlock scope (engine.stripBlock scope block).1 =
      ((engine.stripBlock scope block).1, Removal.none) :=
  engine.stripBlock_of_not_actionable scope (engine.not_actionable_stripBlock scope block)

/-- No block of a processed body has a marker to act on. -/
theorem not_actionable_processBody (engine : Engine) (scope : Scope) (body : Block Action) :
    let processed := (engine.processBody scope body).1
    ∀ value ∈ processed :: closureBodies processed.stmts, value.isActionable = false := by
  intro processed value member
  rcases List.mem_cons.mp member with rfl | member
  · exact (isActionable_onStmts _ _).trans (engine.not_actionable_stripBlock scope body)
  · have hbodies := closureBodies_onStmts (engine.stripBlock scope)
      (engine.stripBlock scope body).1.stmts
    have member' := hbodies ▸ member
    obtain ⟨original, -, rfl⟩ := List.mem_map.mp member'
    exact engine.not_actionable_stripBlock scope original

/-- A stripped block is in normal form: there is no marker on it to act on, and
stripping it again leaves it as it is and reports nothing. When the body of a
function is processed, the bodies of its function values are stripped as well,
and each of them is in normal form in the same sense. -/
theorem stripped_normalForm (engine : Engine) (scope : Scope)
    (body : Block Action) :
    let stripped := (engine.stripBlock scope body).1
    let processed := (engine.processBody scope body).1
    (stripped.isActionable = false ∧
      engine.stripBlock scope stripped = (stripped, Removal.none)) ∧
    closureBodies processed.stmts =
      (closureBodies stripped.stmts).map (fun value => (engine.stripBlock scope value).1) ∧
    ∀ value ∈ processed :: closureBodies processed.stmts,
      value.isActionable = false ∧ engine.stripBlock scope value = (value, Removal.none) := by
  refine ⟨⟨engine.not_actionable_stripBlock scope body, engine.stripBlock_stripBlock scope body⟩,
    closureBodies_onStmts _ _, ?_⟩
  intro value member
  have hidle := engine.not_actionable_processBody scope body value member
  exact ⟨hidle, engine.stripBlock_of_not_actionable scope hidle⟩

end Engine

end Deinstrument
