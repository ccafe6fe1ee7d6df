import Deinstrument.Proofs.CleanReport
import Deinstrument.Proofs.RegionSequences

/-!
# Second runs

The blocks that a run leaves have no marker to act on, so a second run can only
act on what reading the result attaches to other statements. Where a removed
region was the last thing in its block, the comments in front of it have moved
into the closing text. There the run no longer looks for markers, but reading
attaches them to the last statement, and if one of them ends a span, a second run
acts on it.
-/

namespace Deinstrument

namespace Comment

/-! ## Blanks behind the last comment -/

theorem length_pos_of_length? {text : Text} {length : Nat} (found : length? text = some length) :
    0 < length := by
  unfold length? at found
  split at found
  · cases found
    simp [lineLength]
  · split at found <;> cases found
    · exact Nat.succ_pos _
    · exact Nat.succ_pos _
  · cases found

/-- A text in which no comment starts is not cut. -/
theorem Silent.entries_leadingEntries {text : Text} (silent : Silent text []) (fuel : Nat)
    (entry : Text) : (leadingEntries fuel entry text).entries = [] := by
  induction fuel generalizing entry text with
  | zero => rfl
  | succ fuel ih =>
      cases text with
      | nil => rfl
      | cons first rest =>
          have hnone : length? (first :: rest) = none := by
            simpa using silent (first :: rest) List.suffix_rfl (List.cons_ne_nil _ _)
          simp only [leadingEntries, hnone]
          exact ih (fun back suffix => silent back (suffix.trans (List.suffix_cons _ _))) _

/-- No comment starts behind the last cut. -/
theorem silent_space_leadingEntries {fuel : Nat} {entry text : Text} (enough : text.length < fuel)
    (silent : Silent entry text) : Silent (leadingEntries fuel entry text).space [] := by
  induction fuel generalizing entry text with
  | zero => exact absurd enough (Nat.not_lt_zero _)
  | succ fuel ih =>
      cases found : length? text with
      | some length =>
          have hpositive := length_pos_of_length? found
          simp only [leadingEntries, found]
          refine ih ?_ (silent_nil _)
          obtain ⟨second, rest, rfl⟩ := exists_cons_of_length? found
          rw [List.length_drop]
          simp only [List.length_cons] at enough ⊢
          omega
      | none =>
          cases text with
          | nil => simpa [leadingEntries, found] using silent
          | cons first rest =>
              simp only [leadingEntries, found]
              exact ih (Nat.lt_of_succ_lt_succ enough) (silent.concat found)

/-- All comments of a text are cut off at once. -/
theorem splitLeading_space (text : Text) :
    (splitLeading (splitLeading text).space).entries = [] :=
  (silent_space_leadingEntries (Nat.lt_succ_self _) (silent_nil text)).entries_leadingEntries _ _

end Comment

/-! ## Blocks of a file that is read -/

namespace Row

theorem values_push {α : Type} (row : Row α) (added : Text) :
    (row.push added).values = row.values := by
  obtain ⟨lead, items⟩ := row
  cases items with
  | nil => rfl
  | cons item rest => exact values_extendLast added (item :: rest)

end Row

namespace Code

open Go (Node)

/-- The expression of a node. -/
def IsReadExpr (value : Expr) : Prop :=
  ∃ node, expr node = value

/-- The block of a node. -/
def IsReadBlock (body : Block Action) : Prop :=
  ∃ node, block node = some body

theorem isReadExpr_exprs {items : List (Spaced Node)} :
    ∀ item ∈ exprs items, IsReadExpr item.value := by
  induction items with
  | nil => exact List.forall_mem_nil _
  | cons item rest ih => exact List.forall_mem_cons.mpr ⟨⟨item.value, rfl⟩, ih⟩

/-- The parts of an expression in which function values are looked for are read
from nodes. -/
def PartsRead : Expr → Prop
  | .call _ callee _ => IsReadExpr callee
  | .literal _ _ row => ∀ value ∈ row.values, IsReadExpr value
  | .elements row => ∀ value ∈ row.values, IsReadExpr value
  | .keyed _ _ _ value _ => IsReadExpr value
  | .function _ body => IsReadBlock body
  | _ => True

theorem partsRead_function {head : Text} {items : List (Spaced Node)} {value : Expr}
    (found : function head items = some value) : PartsRead value := by
  induction items generalizing head with
  | nil => cases found
  | cons first rest ih =>
      cases rest with
      | nil =>
          simp only [function] at found
          split at found
          · split at found
            · rename_i body hbody
              cases found
              exact ⟨_, hbody⟩
            · cases found
          · cases found
      | cons second later => exact ih found

theorem isReadExpr_values {lead : Text} {items : List (Spaced Node)} :
    ∀ value ∈ (Row.mk lead (exprs items)).values, IsReadExpr value :=
  List.forall_mem_map.mpr isReadExpr_exprs

theorem isReadExpr_push {lead tail : Text} {items : List (Spaced Node)} :
    ∀ value ∈ (Row.push ⟨lead, exprs items⟩ tail).values, IsReadExpr value := by
  rw [Row.values_push]
  exact isReadExpr_values

theorem partsRead_expr : (node : Node) → PartsRead (expr node)
  | .mk kind line ⟨lead, items⟩ => by
      unfold expr
      split
      · trivial
      · split
        · trivial
        · split
          · exact ⟨_, rfl⟩
          · trivial
        · exact isReadExpr_push
        · exact isReadExpr_values
        · exact ⟨_, rfl⟩
        -- An element with nothing around it is read as the expression inside of it.
        · split
          · exact partsRead_expr _
          · trivial
        · split
          · exact partsRead_function ‹_›
          · trivial
        · trivial

/-! ### Function values -/

theorem isReadBlock_functionBodies {value : Expr} (read : IsReadExpr value) :
    ∀ body ∈ Engine.functionBodies value, IsReadBlock body := by
  obtain ⟨node, rfl⟩ := read
  have hparts := partsRead_expr node
  cases hvalue : expr node with
  | function head body =>
      rw [hvalue] at hparts
      exact List.forall_mem_singleton.mpr hparts
  | _ => exact List.forall_mem_nil _

theorem isReadBlock_elementBodies {value : Expr} (read : IsReadExpr value) :
    ∀ body ∈ Engine.elementBodies value, IsReadBlock body := by
  obtain ⟨node, rfl⟩ := read
  have hparts := partsRead_expr node
  cases hvalue : expr node with
  | keyed lead key colon value tail =>
      rw [hvalue] at hparts
      exact isReadBlock_functionBodies hparts
  | _ => exact List.forall_mem_nil _

/-- Bodies that are read from each expression are read from all of them. -/
theorem isReadBlock_flatMap {bodies : Expr → List (Block Action)}
    (each : ∀ value, IsReadExpr value → ∀ body ∈ bodies value, IsReadBlock body) {row : Row Expr}
    (read : ∀ value ∈ row.values, IsReadExpr value) :
    ∀ body ∈ row.items.flatMap (fun item => bodies item.value), IsReadBlock body := by
  intro body member
  obtain ⟨item, hitem, hbody⟩ := List.mem_flatMap.mp member
  exact each item.value (read item.value (List.mem_map_of_mem hitem)) body hbody

theorem isReadBlock_valueBodies {value : Expr} (read : IsReadExpr value) :
    ∀ body ∈ Engine.valueBodies value, IsReadBlock body := by
  have hfunction := isReadBlock_functionBodies read
  obtain ⟨node, rfl⟩ := read
  have hparts := partsRead_expr node
  cases hvalue : expr node with
  | literal lead type row =>
      rw [hvalue] at hparts
      exact isReadBlock_flatMap (fun _ => isReadBlock_elementBodies) hparts
  | elements row =>
      rw [hvalue] at hparts
      exact isReadBlock_flatMap (fun _ => isReadBlock_elementBodies) hparts
  | _ =>
      rw [hvalue] at hfunction
      exact hfunction

theorem isReadBlock_actionBodies (node : Node) :
    ∀ body ∈ Engine.actionBodies (action node), IsReadBlock body := by
  obtain ⟨kind, line, lead, items⟩ := node
  unfold action
  split
  · rename_i value tail
    have hparts := partsRead_expr value
    cases hvalue : expr value with
    | call start callee row =>
        rw [hvalue] at hparts
        exact isReadBlock_functionBodies hparts
    | _ => exact List.forall_mem_nil _
  · exact isReadBlock_flatMap (fun _ => isReadBlock_valueBodies) isReadExpr_push
  · exact isReadBlock_flatMap (fun _ => isReadBlock_valueBodies) isReadExpr_push
  · exact List.forall_mem_nil _
  · exact List.forall_mem_nil _
  · exact List.forall_mem_nil _

/-! ### Statements and blocks -/

theorem isReadBlock_statements {items : List (Spaced Node)} (pending : Text) :
    ∀ body ∈ Engine.closureBodies (statements pending items).1, IsReadBlock body := by
  induction items generalizing pending with
  | nil => exact List.forall_mem_nil _
  | cons item rest ih =>
      obtain ⟨node, gap⟩ := item
      have hnode := isReadBlock_actionBodies node
      cases rest with
      | nil =>
          rw [statements, Engine.closureBodies, List.flatMap_singleton]
          exact hnode
      | cons next later =>
          simp only [statements, Engine.closureBodies, List.flatMap_cons]
          exact List.forall_mem_append.mpr ⟨hnode, ih _⟩

/-- The function values of a block that is read are read as well. -/
theorem IsReadBlock.closureBodies {body : Block Action} (read : IsReadBlock body) :
    ∀ value ∈ Engine.closureBodies body.stmts, IsReadBlock value := by
  obtain ⟨⟨kind, line, lead, items⟩, built⟩ := read
  unfold block at built
  split at built
  · split at built <;> cases built
    exact List.forall_mem_nil _
  · split at built <;> cases built
    exact isReadBlock_statements _
  · cases built

theorem isReadBlock_functionBody {node : Node} {head : Text} {body : Block Action}
    (found : functionBody node = some (head, body)) : IsReadBlock body := by
  unfold functionBody at found
  split at found
  · split at found
    · obtain ⟨inner, hinner, heq⟩ := Option.map_eq_some_iff.mp found
      cases heq
      exact ⟨_, hinner⟩
    · cases found
  · cases found

theorem bodies_textItem (text : Text) : bodies (textItem text) = [] := by
  unfold textItem
  split <;> rfl

/-- The body of each function among nodes is read. -/
theorem isReadBlock_bodies {items : List (Spaced Node)} (pending : Text) :
    ∀ body ∈ bodies (itemsFrom pending items), IsReadBlock body := by
  induction items generalizing pending with
  | nil =>
      rw [itemsFrom, bodies_textItem]
      exact List.forall_mem_nil _
  | cons item rest ih =>
      obtain ⟨node, gap⟩ := item
      unfold itemsFrom
      split
      · have hfunction : ∀ body ∈ bodies [.function (functionOf node)], IsReadBlock body := by
          unfold functionOf
          split
          · exact List.forall_mem_singleton.mpr (isReadBlock_functionBody ‹_›)
          · exact List.forall_mem_nil _
        rw [bodies, List.filterMap_append, ← bodies, bodies_textItem, List.nil_append, ← bodies,
          bodies_cons]
        exact List.forall_mem_append.mpr ⟨hfunction, ih gap⟩
      · exact ih _

/-- Every block of a file is read from a node. -/
theorem isReadBlock_blocks (root : Node) : ∀ body ∈ blocks (items root), IsReadBlock body := by
  intro body member
  obtain ⟨outer, houter, hbody⟩ := List.mem_flatMap.mp member
  have hread := isReadBlock_bodies _ outer houter
  rcases List.mem_cons.mp hbody with rfl | hbody
  · exact hread
  · exact hread.closureBodies body hbody

/-! ## Closing texts -/

/-- Behind the comments of the last statement there are only blanks left. -/
theorem statements_snd_eq_space {items : List (Spaced Node)} (pending : Text)
    (nonempty : items ≠ []) :
    ∃ text, (statements pending items).2 = (Comment.splitLeading text).space := by
  induction items generalizing pending with
  | nil => contradiction
  | cons item rest ih =>
      cases rest with
      | nil => exact ⟨_, rfl⟩
      | cons next later => exact ih _ (List.cons_ne_nil next later)

end Code

/-- The markers between the last statement of a block and its closing brace. -/
def Block.marksClosing {Action : Type} (block : Block Action) : List Marker :=
  Marker.among (Comment.splitLeading block.closing.dropLast).entries

/-- Reading attaches the comments in front of a closing brace to the last statement,
so there is no marker among what is left of them. -/
theorem Code.IsReadBlock.marksClosing_eq_nil {body : Block Action} (read : IsReadBlock body)
    (nonempty : body.stmts ≠ []) : body.marksClosing = [] := by
  obtain ⟨⟨kind, line, lead, items⟩, built⟩ := read
  unfold block at built
  split at built
  · split at built <;> cases built
    contradiction
  · rename_i inner hitems
    split at built <;> cases built
    obtain ⟨text, htext⟩ := statements_snd_eq_space (Comment.splitTrailing inner).rest hitems
    simp only [Block.marksClosing, List.dropLast_concat, htext, Comment.splitLeading_space,
      Marker.among_nil]
  · cases built

/-! ## Markers of a block -/

/-- Whether a run acts on a statement with certain markers above and behind it. -/
def Marker.act (marks : List Marker × List Marker) : Bool :=
  marks.1.contains .regionStart || marks.1.contains .spanEnd || marks.2.contains .spanEnd ||
    marks.1.contains .instrumented

theorem Marker.act_append (above behind more : List Marker) :
    act (above, behind ++ more) = (act (above, behind) || more.contains .spanEnd) := by
  simp only [act, List.contains_eq_mem, List.mem_append, Bool.decide_or]
  ac_rfl

namespace Block

variable {Action : Type}

/-- The markers above and behind each statement of a block. -/
def marks (block : Block Action) : List (List Marker × List Marker) :=
  block.stmts.map fun stmt => (stmt.marksBefore, stmt.marksAfter)

/-- The markers above and behind each statement of a block, with those in front of
the closing brace behind the last statement. -/
def marksJoined (block : Block Action) : List (List Marker × List Marker) :=
  match block.marks.getLast? with
  | none => []
  | some (above, behind) => block.marks.dropLast ++ [(above, behind ++ block.marksClosing)]

theorem isActionable_eq_any_marks (block : Block Action) :
    block.isActionable = block.marks.any Marker.act := by
  rw [isActionable, marks, List.any_map]
  refine congrArg (block.stmts.any ·) (funext fun stmt => ?_)
  simp only [Stmt.isActionable, Stmt.hasBefore_eq, Stmt.hasAfter_eq, Function.comp_apply,
    Marker.act, List.contains_eq_mem]

/-- Where there is nothing to act on yet, it is the end of a span in front of the
closing brace that matters. -/
theorem any_marksJoined {block : Block Action} (idle : block.isActionable = false) :
    block.marksJoined.any Marker.act = true ↔
      block.stmts ≠ [] ∧ .spanEnd ∈ block.marksClosing := by
  rw [isActionable_eq_any_marks] at idle
  rcases List.eq_nil_or_concat block.marks with hmarks | ⟨front, ⟨above, behind⟩, hmarks⟩
  · have hstmts : block.stmts = [] := List.map_eq_nil_iff.mp hmarks
    simp [marksJoined, hmarks, hstmts]
  · have hstmts : block.stmts ≠ [] := by
      intro hempty
      simp [marks, hempty] at hmarks
    simp only [hmarks, List.concat_eq_append, List.any_append, List.any_cons, List.any_nil,
      Bool.or_false, Bool.or_eq_false_iff] at idle
    have hjoined : block.marksJoined = front ++ [(above, behind ++ block.marksClosing)] := by
      simp [marksJoined, hmarks]
    simp only [hjoined, List.any_append, List.any_cons, List.any_nil, Bool.or_false, idle.1,
      Marker.act_append, idle.2, Bool.false_or, List.contains_iff_mem]
    exact (and_iff_right hstmts).symm

end Block

/-- What reading a result shows of its blocks: the same markers at the same
statements, and those in front of a closing brace behind the last statement. -/
def Code.ReadsBack (items reread : List Item) : Prop :=
  (blocks reread).map Block.marks = (blocks items).map Block.marksJoined

instance (items reread : List Item) : Decidable (Code.ReadsBack items reread) :=
  inferInstanceAs (Decidable (_ = _))

theorem Code.ReadsBack.not_actionable_iff {items reread : List Item} (back : ReadsBack items reread)
    (idle : ∀ block ∈ blocks items, block.isActionable = false) :
    isActionable reread = false ↔
      ∀ block ∈ blocks items, block.stmts ≠ [] → .spanEnd ∉ block.marksClosing := by
  have hreread : isActionable reread = ((blocks items).map Block.marksJoined).any
      (·.any Marker.act) := by
    rw [isActionable_eq_any_blocks, ← back, List.any_map]
    exact congrArg ((blocks reread).any ·) (funext Block.isActionable_eq_any_marks)
  rw [hreread, List.any_map, List.any_eq_false]
  refine forall₂_congr fun block member => ?_
  rw [Function.comp_apply, Block.any_marksJoined (idle block member), not_and]

namespace Engine

open Text (Deletion)

/-! ## Second runs -/

/-- No block of a processed file has a marker to act on. -/
theorem not_actionable_processItems (engine : Engine) (scope : Scope) (report : Report)
    (items : List Item) :
    ∀ block ∈ Code.blocks (engine.processItems scope report items).1,
      block.isActionable = false := by
  induction items generalizing report with
  | nil => exact List.forall_mem_nil _
  | cons item rest ih =>
      rw [processItems, Code.blocks_cons]
      refine List.forall_mem_append.mpr ⟨?_, ih _⟩
      cases item with
      | text source => exact List.forall_mem_nil _
      | function decl =>
          obtain ⟨name, head, body⟩ := decl
          cases body with
          | none => exact List.forall_mem_nil _
          | some body =>
              simpa [processItem, Code.blocks, Code.bodies] using
                engine.not_actionable_processBody scope body

/-- A second run keeps the result of the first one exactly if reading that
result again shows no marker to act on. A checked result can always be read
again, and a second run that changes it deletes more text. What it can act on is
what the first run has moved: there is no marker in front of a closing brace of
the source, at least behind a statement, and nothing to act on in the blocks that
the first run leaves. Where they read back, a second run keeps them exactly if no
end of a span has moved in front of a closing brace. -/
theorem rerun_unchanged_iff {engine : Engine} {file source : Text} {out : Output}
    (done : engine.run file source = .ok out) :
    ((∃ again, engine.run file out.source = .ok again ∧ again.source = out.source) ↔
      ∃ root, Go.parse? out.source = some root ∧
        Code.isActionable (Code.items root) = false) ∧
    (engine.config.validateOutput = true → ∃ root, Go.parse? out.source = some root) ∧
    (∀ again, engine.run file out.source = .ok again → again.source ≠ out.source →
      Deletion 1 again.source out.source) ∧
    ∀ root, Go.parse? source = some root →
      let items := engine.processed file root
      (∀ block ∈ Code.blocks (Code.items root), block.stmts ≠ [] → block.marksClosing = []) ∧
      (∀ block ∈ Code.blocks items, block.isActionable = false) ∧
      ∀ reread, Go.parse? out.source = some reread → Code.ReadsBack items (Code.items reread) →
        ((∃ again, engine.run file out.source = .ok again ∧ again.source = out.source) ↔
          ∀ block ∈ Code.blocks items, block.stmts ≠ [] → .spanEnd ∉ block.marksClosing) := by
  refine ⟨run_fixed_iff engine file out.source, ?_, ?_, ?_⟩
  · intro asked
    obtain ⟨root, parsed⟩ := parse_of_run done
    rw [run_of_parse engine file parsed] at done
    exact Option.isSome_iff_exists.mp ((finish_ok done).2 asked)
  · intro again rerun changed
    obtain ⟨root, parsed⟩ := parse_of_run rerun
    have hsublist := (run_deletion parsed rerun).sublist
    refine ⟨hsublist, Nat.lt_of_le_of_ne hsublist.length_le ?_⟩
    intro hlength
    exact changed (hsublist.eq_of_length hlength)
  · intro root parsed items
    have hidle : ∀ block ∈ Code.blocks items, block.isActionable = false :=
      engine.not_actionable_processItems _ _ _
    refine ⟨fun block member => (Code.isReadBlock_blocks root block member).marksClosing_eq_nil,
      hidle, ?_⟩
    intro reread hreread back
    -- Nothing in the blocks that are left is acted on, so what reading joins to them decides.
    rw [run_fixed_iff, ← back.not_actionable_iff hidle]
    constructor
    · rintro ⟨root', parsed', idle⟩
      rw [hreread, Option.some.injEq] at parsed'
      rwa [parsed']
    · exact fun idle => ⟨reread, hreread, idle⟩

/-- A span in front of a region at the end of a body. -/
def spanThenRegionSource : Text :=
  ("package p\n\nfunc f() \x7b\n\t//dd:startinstrument\n\ts()\n\t//dd:endinstrument\n" ++
    "\t//dd:startwrap\n\tb() //dd:endwrap\n\x7d\n").toList

/-- The same body without the region. The end of the span is above the closing
brace, where reading attaches it to the statement of the span. -/
def spanLeftSource : Text :=
  ("package p\n\nfunc f() \x7b\n\t//dd:startinstrument\n\ts()\n\t//dd:endinstrument\n" ++
    "\x7d\n").toList

theorem run_spanThenRegionSource :
    (ofConfig .standard).run [] spanThenRegionSource =
      .ok ⟨spanLeftSource, ⟨[], 1, 0, 0, [], [], 0, [], 2⟩⟩ := by
  decide +kernel

/-- The result reads back, and the end of the span has moved in front of a closing
brace. -/
theorem rerun_unchanged_iff_spanThenRegionSource :
    ∃ out root reread, (ofConfig .standard).run [] spanThenRegionSource = .ok out ∧
      Go.parse? spanThenRegionSource = some root ∧ Go.parse? out.source = some reread ∧
      Code.ReadsBack ((ofConfig .standard).processed [] root) (Code.items reread) ∧
      (∃ block ∈ Code.blocks ((ofConfig .standard).processed [] root),
        block.stmts ≠ [] ∧ .spanEnd ∈ block.marksClosing) ∧
      ¬ ∃ again, (ofConfig .standard).run [] out.source = .ok again ∧
        again.source = out.source := by
  have shown : ((Go.parse? spanThenRegionSource).bind fun root =>
      (Go.parse? spanLeftSource).map fun reread =>
        let items := (ofConfig .standard).processed [] root
        decide (Code.ReadsBack items (Code.items reread)) &&
          (Code.blocks items).any fun block =>
            !block.stmts.isEmpty && block.marksClosing.contains .spanEnd) = some true := by
    decide +kernel
  obtain ⟨root, parsed, hreread⟩ := Option.bind_eq_some_iff.mp shown
  obtain ⟨reread, reparsed, hitems⟩ := Option.map_eq_some_iff.mp hreread
  simp only [Bool.and_eq_true, decide_eq_true_eq, List.any_eq_true, List.contains_iff_mem,
    Bool.not_eq_true', List.isEmpty_eq_false_iff] at hitems
  obtain ⟨back, block, member, nonempty, hmoved⟩ := hitems
  refine ⟨_, root, reread, run_spanThenRegionSource, parsed, reparsed, back,
    ⟨block, member, nonempty, hmoved⟩, ?_⟩
  have hsecond := (rerun_unchanged_iff run_spanThenRegionSource).2.2.2 root parsed
  intro kept
  exact (hsecond.2.2 reread reparsed back).mp kept block member nonempty hmoved

/-- The first run removes the region, and only a second one the span. -/
theorem rerun_changes_spanThenRegionSource :
    ∃ out again, (ofConfig .standard).run [] spanThenRegionSource = .ok out ∧
      (ofConfig .standard).run [] out.source = .ok again ∧ again.source ≠ out.source := by
  have rerun : (ofConfig .standard).run [] spanLeftSource =
      .ok ⟨"package p\n\nfunc f() \x7b\n\x7d\n".toList,
        ⟨[], 0, 1, 0, [], [], 0, [], 0⟩⟩ := by decide +kernel
  exact ⟨_, _, run_spanThenRegionSource, rerun, by decide⟩

end Engine

end Deinstrument
