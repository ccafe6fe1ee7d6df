import Deinstrument.Proofs.Closure

/-!
# Runs delete text

A run acts on some of the markers of a file and leaves the others alone. What
it returns is the source with text deleted, at least one character of it if
there is a marker to act on; without one it returns the source itself. Rules
have no part in this: they see what has been removed, not what stays.
-/

namespace Deinstrument

open Text (Deletion)

/-! ## Markers to act on -/

/-- Whether a run acts on a marker of a statement: the start of a region above
it, the end of a span above or behind it, or a tag above it. -/
def Stmt.isActionable {Action : Type} (stmt : Stmt Action) : Bool :=
  stmt.hasBefore .regionStart || stmt.hasBefore .spanEnd || stmt.hasAfter .spanEnd ||
    stmt.hasBefore .instrumented

/-- Whether a run acts on a marker of one of the statements of a block. -/
def Block.isActionable {Action : Type} (block : Block Action) : Bool :=
  block.stmts.any Stmt.isActionable

namespace Code

/-- Whether a run acts on a marker in the body of a function, or in the body of
a function value that its statements hold directly. -/
def isActionableBody (body : Block Action) : Bool :=
  body.isActionable || (Engine.closureBodies body.stmts).any Block.isActionable

/-- Whether a run acts on a marker of a file. -/
def isActionable (items : List Item) : Bool :=
  (bodies items).any isActionableBody

theorem bodies_cons (item : Item) (rest : List Item) :
    bodies (item :: rest) = bodies [item] ++ bodies rest :=
  List.filterMap_append (l := [item])

theorem isActionable_cons (item : Item) (rest : List Item) :
    isActionable (item :: rest) = (isActionable [item] || isActionable rest) := by
  rw [isActionable, bodies_cons, List.any_append]
  rfl

end Code

theorem Block.isActionable_eq {Action : Type} (block : Block Action) :
    block.isActionable = (Region.opens block.stmts || block.stmts.any Span.acts) := by
  obtain ⟨opening, stmts, closing⟩ := block
  simp only [isActionable, Region.opens]
  induction stmts with
  | nil => rfl
  | cons stmt rest ih =>
      simp only [List.any_cons, ih, Stmt.isActionable, Span.acts]
      ac_rfl

/-- If one of several things counts, the sum of their counts is positive. -/
theorem toNat_any_le_sum {α : Type} (holds : α → Bool) (values : List α) :
    (values.any holds).toNat ≤ (values.map fun value => (holds value).toNat).sum := by
  induction values with
  | nil => exact Nat.le_refl _
  | cons value rest ih =>
      simp only [List.any_cons, List.map_cons, List.sum_cons]
      cases holds value with
      | true => simp
      | false => simpa using ih

namespace Engine

/-! ## Blocks -/

/-- Nothing was removed. -/
def Removal.none : Removal :=
  ⟨0, 0, 0, [], []⟩

/-- Stripping a block deletes text, and something if there is a marker to act
on. -/
theorem stripBlock_deletion (engine : Engine) (scope : Scope) (block : Block Action) :
    Deletion block.isActionable.toNat (printBlock (engine.stripBlock scope block).1)
      (printBlock block) := by
  have hregions := Region.remove_deletion Action.print block
  have hspans := Span.remove_deletion Action.print (Region.remove block).1
  rw [printBlock_eq, printBlock_eq, Block.isActionable_eq]
  by_cases hopens : Region.opens block.stmts = true
  · exact (hspans.trans hregions).mono (by simp [hopens])
  · rw [Bool.not_eq_true] at hopens
    rw [Region.remove_of_not_opens hopens] at hspans
    simp only [stripBlock, Region.remove_of_not_opens hopens, hopens, Bool.false_or]
    exact hspans

/-- A block without a marker to act on stays as it is. -/
theorem stripBlock_of_not_actionable (engine : Engine) (scope : Scope) {block : Block Action}
    (idle : block.isActionable = false) :
    engine.stripBlock scope block = (block, Removal.none) := by
  rw [Block.isActionable_eq, Bool.or_eq_false_iff] at idle
  simp [stripBlock, Region.remove_of_not_opens idle.1, Span.remove_of_not_acts idle.2,
    Removal.none]

/-! ## Bodies -/

/-- Walking over the function values of a block deletes text from the block. -/
theorem printBlock_walk (block : Block Action) :
    Walk (printBlock block) (closureBodies block.stmts) fun change =>
      (printBlock { block with stmts := (onStmts change block.stmts).1 },
        (onStmts change block.stmts).2) := by
  obtain ⟨opening, stmts, closing⟩ := block
  exact ((onStmts_walk stmts).within opening closing).of_eq rfl rfl fun _ => rfl

/-- Processing the body of a function deletes text, and something if there is a
marker to act on. -/
theorem processBody_deletion (engine : Engine) (scope : Scope) (body : Block Action) :
    Deletion (Code.isActionableBody body).toNat (printBlock (engine.processBody scope body).1)
      (printBlock body) := by
  have hstrip := engine.stripBlock_deletion scope body
  have hwalk := (printBlock_walk (engine.stripBlock scope body).1).deletion
    (engine.stripBlock scope) _ (engine.stripBlock_deletion scope)
  refine (hwalk.trans hstrip).mono ?_
  -- Function values count only if stripping the body has not deleted anything yet.
  by_cases hbody : body.isActionable = true
  · simp [Code.isActionableBody, hbody]
  · rw [Bool.not_eq_true] at hbody
    rw [engine.stripBlock_of_not_actionable scope hbody, Code.isActionableBody, hbody,
      Bool.false_or]
    exact Nat.le_add_left_of_le (toNat_any_le_sum _ _)

/-- A body without a marker to act on keeps its text, and nothing is removed. -/
theorem processBody_of_not_actionable (engine : Engine) (scope : Scope) {body : Block Action}
    (idle : Code.isActionableBody body = false) :
    printBlock (engine.processBody scope body).1 = printBlock body ∧
      (engine.processBody scope body).2.1 = Removal.none ∧
      ∀ removal ∈ (engine.processBody scope body).2.2, removal = Removal.none := by
  rw [Code.isActionableBody, Bool.or_eq_false_iff, List.any_eq_false] at idle
  obtain ⟨hbody, hvalues⟩ := idle
  have hstays : ∀ value ∈ closureBodies body.stmts,
      engine.stripBlock scope value = (value, Removal.none) := by
    intro value member
    exact engine.stripBlock_of_not_actionable scope (Bool.eq_false_iff.mpr (hvalues value member))
  have hwalk := printBlock_walk body
  simp only [processBody, engine.stripBlock_of_not_actionable scope hbody, true_and]
  refine ⟨?_, ?_⟩
  · exact hwalk.unchanged (engine.stripBlock scope) fun value member => by
      rw [hstays value member]
  · intro removal member
    rw [hwalk.removals, List.mem_map] at member
    obtain ⟨value, hvalue, hremoval⟩ := member
    rw [← hremoval, hstays value hvalue]

/-! ## Items -/

theorem addRemoval_none (report : Report) : addRemoval report Removal.none = report := by
  cases report
  rfl

theorem foldl_addRemoval_none (report : Report) {removals : List Removal}
    (empty : ∀ removal ∈ removals, removal = Removal.none) :
    removals.foldl addRemoval report = report := by
  induction removals with
  | nil => rfl
  | cons removal rest ih =>
      rw [List.foldl_cons, empty removal (by simp), addRemoval_none]
      exact ih fun later member => empty later (by simp [member])

theorem processItem_deletion (engine : Engine) (scope : Scope) (report : Report) (item : Item) :
    Deletion (Code.isActionable [item]).toNat
      (engine.processItem scope report item).1.print item.print := by
  cases item with
  | text source => exact .refl source
  | function decl =>
      obtain ⟨name, head, body⟩ := decl
      cases body with
      | none => exact .refl head
      | some body =>
          have hbody := engine.processBody_deletion scope body
          exact ((Deletion.refl head).append hbody).mono (by simp [Code.isActionable, Code.bodies])

/-- An item without a marker to act on keeps its text, and the report changes
only in what it says about function values and markers left. -/
theorem processItem_of_not_actionable (engine : Engine) (scope : Scope) (report : Report)
    {item : Item} (idle : Code.isActionable [item] = false) :
    (engine.processItem scope report item).1.print = item.print ∧
      ∃ closures markersLeft, (engine.processItem scope report item).2 =
        { report with closures := closures, markersLeft := markersLeft } := by
  cases item with
  | text source => exact ⟨rfl, report.closures, report.markersLeft, rfl⟩
  | function decl =>
      obtain ⟨name, head, body⟩ := decl
      cases body with
      | none => exact ⟨rfl, report.closures, report.markersLeft, rfl⟩
      | some body =>
          have hidle : Code.isActionableBody body = false := by
            simpa [Code.isActionable, Code.bodies] using idle
          obtain ⟨hprint, hremoval, hnested⟩ := engine.processBody_of_not_actionable scope hidle
          refine ⟨congrArg (head ++ ·) hprint, ?_⟩
          simp only [processItem, hremoval, List.foldl_cons, addRemoval_none,
            foldl_addRemoval_none report hnested]
          exact ⟨_, _, rfl⟩

/-- Processing a file deletes text, and something if there is a marker to act
on. -/
theorem processItems_deletion (engine : Engine) (scope : Scope) (report : Report)
    (items : List Item) :
    Deletion (Code.isActionable items).toNat
      (Code.print (engine.processItems scope report items).1) (Code.print items) := by
  induction items generalizing report with
  | nil => exact .refl []
  | cons item rest ih =>
      have hitem := engine.processItem_deletion scope report item
      have hrest := ih (engine.processItem scope report item).2
      refine (hitem.append hrest).mono ?_
      rw [Code.isActionable_cons]
      cases Code.isActionable [item] <;> simp

theorem processItems_of_not_actionable (engine : Engine) (scope : Scope) (report : Report)
    {items : List Item} (idle : Code.isActionable items = false) :
    Code.print (engine.processItems scope report items).1 = Code.print items ∧
      ∃ closures markersLeft, (engine.processItems scope report items).2 =
        { report with closures := closures, markersLeft := markersLeft } := by
  induction items generalizing report with
  | nil => exact ⟨rfl, report.closures, report.markersLeft, rfl⟩
  | cons item rest ih =>
      rw [Code.isActionable_cons, Bool.or_eq_false_iff] at idle
      obtain ⟨hprint, closures, markersLeft, hreport⟩ :=
        engine.processItem_of_not_actionable scope report idle.1
      obtain ⟨hlater, closures', markersLeft', hfinal⟩ :=
        ih (engine.processItem scope report item).2 idle.2
      refine ⟨?_, closures', markersLeft', ?_⟩
      · simp only [processItems, Code.print, List.flatMap_cons, hprint] at hlater ⊢
        rw [hlater]
      · rw [processItems, hfinal, hreport]

end Engine

/-! ## Imports -/

theorem Extent.delete_sublist (text : Text) (extent : Extent) :
    List.Sublist (delete text extent) text := by
  have hfront := List.take_sublist_take_left (l := text)
    (Nat.min_le_right extent.start (min extent.stop text.length))
  have hwhole := hfront.append (List.Sublist.refl (text.drop (min extent.stop text.length)))
  rwa [List.take_append_drop] at hwhole

theorem Extent.foldl_delete_sublist (text : Text) (extents : List Extent) :
    List.Sublist (extents.foldl delete text) text := by
  induction extents generalizing text with
  | nil => exact .refl text
  | cons extent rest ih => exact (ih (delete text extent)).trans (delete_sublist text extent)

/-- Pruning imports deletes text, whatever tree shows the imports. -/
theorem Import.prune_sublist (text : Text) (paths : List Text) (recover : Text → Go.Node) :
    List.Sublist (prune text paths recover).2 text :=
  Extent.foldl_delete_sublist text _

namespace Engine

/-! ## Files -/

/-- A result is the printed file with text deleted, and it can be read if the
settings ask for that. -/
theorem finish_ok {engine : Engine} {printed : Text} {report : Report} {out : Output}
    (done : engine.finish printed report = .ok out) :
    List.Sublist out.source printed ∧
      (engine.config.validateOutput = true → (Go.parse? out.source).isSome = true) := by
  have hprune : List.Sublist
      (if engine.config.pruneImports && !report.isClean then
        Import.prune printed engine.config.packages engine.recover
      else ([], printed)).2 printed := by
    split
    · exact Import.prune_sublist printed _ _
    · exact .refl printed
  unfold finish at done
  generalize (if engine.config.pruneImports && !report.isClean then
      Import.prune printed engine.config.packages engine.recover
    else ([], printed)) = chosen at done hprune
  obtain ⟨removed, pruned⟩ := chosen
  simp only at done
  split at done
  · cases done
  · rename_i hreads
    cases done
    refine ⟨hprune, fun asked => ?_⟩
    simpa [asked, Option.isSome_iff_ne_none] using hreads

/-- A result is the printed file with its report, or the file without some of its
imports, provided that the report is not clean. -/
theorem finish_cases {engine : Engine} {printed : Text} {report : Report} {out : Output}
    (done : engine.finish printed report = .ok out) :
    let pruned := Import.prune printed engine.config.packages engine.recover
    out = ⟨printed, { report with pruned := [] }⟩ ∨
    (report.isClean = false ∧ out = ⟨pruned.2, { report with pruned := pruned.1 }⟩) := by
  unfold finish at done
  by_cases hprunes : (engine.config.pruneImports && !report.isClean) = true
  · rw [if_pos hprunes] at done
    simp only at done
    split at done
    · cases done
    · cases done
      rw [Bool.and_eq_true, Bool.not_eq_true'] at hprunes
      exact .inr ⟨hprunes.2, rfl⟩
  · rw [if_neg hprunes] at done
    simp only at done
    split at done
    · cases done
    · cases done
      exact .inl rfl

/-- A clean report is final: there are no imports to prune. -/
theorem finish_of_clean {engine : Engine} {printed : Text} {report : Report}
    (clean : report.isClean = true) (reads : (Go.parse? printed).isSome = true) :
    engine.finish printed report = .ok ⟨printed, { report with pruned := [] }⟩ := by
  have hreads : (Go.parse? printed).isNone = false := by
    rw [← Option.not_isSome, reads, Bool.not_true]
  simp [finish, clean, hreads]

/-- The items of a file after its blocks have been processed. -/
def processed (engine : Engine) (file : Text) (root : Go.Node) : List Item :=
  (engine.processItems ⟨Import.ofRoot root, engine.config.packages⟩ (.ofFile file)
    (Code.items root)).1

/-- What a run does with a source that can be read. -/
theorem run_of_parse (engine : Engine) (file : Text) {source : Text} {root : Go.Node}
    (parsed : Go.parse? source = some root) :
    engine.run file source =
      let processed := engine.processItems ⟨Import.ofRoot root, engine.config.packages⟩
        (.ofFile file) (Code.items root)
      engine.finish (Code.print processed.1) processed.2 := by
  unfold run
  rw [parsed]

/-- Only a source that can be read gives a result. -/
theorem parse_of_run {engine : Engine} {file source : Text} {out : Output}
    (done : engine.run file source = .ok out) : ∃ root, Go.parse? source = some root := by
  cases parsed : Go.parse? source with
  | none =>
      unfold run at done
      rw [parsed] at done
      cases done
  | some root => exact ⟨root, rfl⟩

/-- A run deletes text, and something if there is a marker to act on. -/
theorem run_deletion {engine : Engine} {file source : Text} {root : Go.Node} {out : Output}
    (parsed : Go.parse? source = some root) (done : engine.run file source = .ok out) :
    Deletion (Code.isActionable (Code.items root)).toNat out.source source := by
  rw [run_of_parse engine file parsed] at done
  have hprocess := engine.processItems_deletion ⟨Import.ofRoot root, engine.config.packages⟩
    (.ofFile file) (Code.items root)
  have hfinish := Deletion.of_sublist (finish_ok done).1
  exact (hfinish.trans hprocess).of_eq rfl
    ((Code.print_items root).trans (Go.parse?_text parsed)).symm

/-- Without a marker to act on a run returns its source and a clean report. -/
theorem run_of_not_actionable (engine : Engine) (file : Text) {source : Text} {root : Go.Node}
    (parsed : Go.parse? source = some root)
    (idle : Code.isActionable (Code.items root) = false) :
    ∃ out, engine.run file source = .ok out ∧ out.source = source ∧
      out.report.isClean = true ∧ out.report.pruned = [] := by
  obtain ⟨hprint, closures, markersLeft, hreport⟩ := engine.processItems_of_not_actionable
    ⟨Import.ofRoot root, engine.config.packages⟩ (.ofFile file) idle
  rw [Code.print_items, Go.parse?_text parsed] at hprint
  rw [run_of_parse engine file parsed]
  simp only [hprint, hreport]
  refine ⟨_, finish_of_clean rfl ?_, rfl, rfl, rfl⟩
  rw [parsed, Option.isSome_some]

/-- A result is its source with characters left out, and nothing else. -/
theorem run_sublist {engine : Engine} {file source : Text} {out : Output}
    (done : engine.run file source = .ok out) : List.Sublist out.source source := by
  obtain ⟨root, parsed⟩ := parse_of_run done
  exact (run_deletion parsed done).sublist

/-- A region below a blank line and a comment, which both go to the statement
behind it, in a file whose import is used in that region only. -/
def regionSource : Text :=
  ("import \"i\"\nfunc f() \x7b\n\n\t// k\n\t//dd:startwrap\n\ti.a() //dd:endwrap\n" ++
    "\tb()\n\x7d").toList

/-- A region behind a line comment. What follows the second comment in it moves up
behind the line comment, and a parenthesis that was in a comment becomes code. -/
def swallowedSource : Text :=
  ("import \"i\"\nfunc f() \x7b\n\ta() // n\n\t//dd:startwrap\n\ti.b() ".toList ++
    '/' :: '*' :: " x ".toList ++ '*' :: '/' :: " ; ".toList ++ '/' :: '*' :: " y\n\t( // ".toList ++
      '*' :: '/' :: " //dd:endwrap\n\tc()\n\x7d".toList)

/-- The tree of a text in which nothing but an import in the first line can be read. -/
def importOnly (text : Text) : Go.Node :=
  let content : Go.Node := .mk .interpretedStringLiteralContent 1 (.ofText ['i'])
  let path : Go.Node := .mk .interpretedStringLiteral 1 ⟨['"'], [⟨content, ['"']⟩]⟩
  let spec : Go.Node := .mk .importSpec 1 ⟨[], [⟨path, []⟩]⟩
  let declaration : Go.Node := .mk .importDeclaration 1 ⟨"import ".toList, [⟨spec, []⟩]⟩
  .mk .sourceFile 1 ⟨[], [⟨declaration, ['\n']⟩, ⟨.unread (text.drop 11), []⟩]⟩

/-- The second run is not checked: its result has a syntax error, and its import is
pruned all the same. -/
theorem run_sublist_regionSource :
    (∃ out, (ofConfig ⟨["i".toList], true, true⟩).run [] regionSource = .ok out ∧
      out.source = "func f() \x7b\n\n\t// k\n\tb()\n\x7d".toList ∧
      List.Sublist out.source regionSource) ∧
    ∃ out, { ofConfig ⟨["i".toList], true, false⟩ with recover := importOnly }.run []
        swallowedSource = .ok out ∧
      out.report.pruned = ["i".toList] ∧ Go.parse? out.source = none ∧
      List.Sublist out.source swallowedSource := by
  have done : (ofConfig ⟨["i".toList], true, true⟩).run [] regionSource =
      .ok ⟨"func f() \x7b\n\n\t// k\n\tb()\n\x7d".toList,
        ⟨[], 1, 0, 0, [], [], 0, ["i".toList], 0⟩⟩ := by decide +kernel
  have unchecked : { ofConfig ⟨["i".toList], true, false⟩ with recover := importOnly }.run []
      swallowedSource = .ok ⟨"func f() \x7b\n\ta() // n ; ".toList ++ '/' :: '*' ::
        " y\n\t( // ".toList ++ '*' :: '/' :: "\n\tc()\n\x7d".toList,
        ⟨[], 1, 0, 0, [], [], 0, ["i".toList], 0⟩⟩ := by decide +kernel
  exact ⟨⟨_, done, rfl, run_sublist done⟩, _, unchecked, rfl, by decide +kernel,
    run_sublist unchecked⟩

/-- A run returns its source exactly if there is no marker to act on. -/
theorem run_unchanged_exactly_if_not_actionable (engine : Engine) (file : Text) {source : Text}
    {root : Go.Node} (parsed : Go.parse? source = some root) :
    (Code.isActionable (Code.items root) = false →
      ∃ out, engine.run file source = .ok out ∧ out.source = source ∧
        out.report.isClean = true ∧ out.report.pruned = []) ∧
    (Code.isActionable (Code.items root) = true →
      ∀ out, engine.run file source = .ok out → out.source ≠ source) := by
  refine ⟨run_of_not_actionable engine file parsed, ?_⟩
  intro acts out done
  have hdeletion := run_deletion parsed done
  rw [acts] at hdeletion
  exact hdeletion.ne Nat.one_pos

/-- Markers that are not acted on: the end of a region, the start of a span,
and a tag behind a statement. -/
def idleSource : Text :=
  ("import \"i\"\nfunc f() \x7b\n\t//dd:endwrap\n\ta() //dd:instrumented\n" ++
    "\t//dd:startinstrument\n\tb()\n\x7d").toList

/-- The start of a region without an end, in the body of a function value. -/
def unmatchedSource : Text :=
  "func f() \x7b\n\tg := func() \x7b\n\t\t//dd:startwrap\n\t\ta()\n\t\x7d\n\x7d".toList

theorem run_unchanged_idleSource_changed_unmatchedSource :
    (∃ out, (ofConfig ⟨["i".toList], true, true⟩).run [] idleSource = .ok out ∧
      out.source = idleSource ∧ out.report.isClean = true ∧ out.report.pruned = []) ∧
    (∃ out, (ofConfig .standard).run [] unmatchedSource = .ok out) ∧
    ∀ out, (ofConfig .standard).run [] unmatchedSource = .ok out →
      out.source ≠ unmatchedSource := by
  have idle : ((Go.parse? idleSource).map fun root => Code.isActionable (Code.items root)) =
      some false := by decide +kernel
  have acts : ((Go.parse? unmatchedSource).map fun root => Code.isActionable (Code.items root)) =
      some true := by decide +kernel
  obtain ⟨idleRoot, idleParsed, idleItems⟩ := Option.map_eq_some_iff.mp idle
  obtain ⟨root, parsed, items⟩ := Option.map_eq_some_iff.mp acts
  have done : (ofConfig .standard).run [] unmatchedSource =
      .ok ⟨"func f() \x7b\n\tg := func() \x7b\n\t\ta()\n\t\x7d\n\x7d".toList,
        ⟨[], 0, 0, 0, [], [], 1, [], 0⟩⟩ := by decide +kernel
  exact ⟨(run_unchanged_exactly_if_not_actionable _ _ idleParsed).1 idleItems, ⟨_, done⟩,
    (run_unchanged_exactly_if_not_actionable _ _ parsed).2 items⟩

/-! ## Second runs -/

/-- A run keeps a text exactly if the text can be read and there is no marker to
act on in it. -/
theorem run_fixed_iff (engine : Engine) (file text : Text) :
    (∃ out, engine.run file text = .ok out ∧ out.source = text) ↔
      ∃ root, Go.parse? text = some root ∧ Code.isActionable (Code.items root) = false := by
  constructor
  · rintro ⟨out, done, same⟩
    obtain ⟨root, parsed⟩ := parse_of_run done
    refine ⟨root, parsed, ?_⟩
    have hlength := (run_deletion parsed done).length_le
    rw [same] at hlength
    exact Bool.toNat_eq_zero.mp (by omega)
  · rintro ⟨root, parsed, idle⟩
    obtain ⟨out, done, same, _⟩ := run_of_not_actionable engine file parsed idle
    exact ⟨out, done, same⟩

end Engine

end Deinstrument
