import Deinstrument.Proofs.Division
import Deinstrument.Proofs.NormalForm

/-!
# What a clean report leaves open

A report counts the regions and spans that were removed and the tags that were
dropped. Two changes are not counted: the start marker of a region without an
end goes, and so do the markers of a span without statements. A run with a
clean report therefore keeps every statement and every other comment, and it
returns its source exactly if no such marker was there.
-/

namespace Deinstrument

section Blocks

variable {Action : Type}

/-- What becomes of a statement in a block from which nothing is counted as
removed: it loses markers of regions without an end and of spans without
statements, and nothing else. -/
def Stmt.Relieved (original stmt : Stmt Action) : Prop :=
  ∃ lost ⊆ [.regionStart, .spanStart, .spanEnd], StaysAs lost [] original stmt

namespace Stmt.Relieved

theorem refl (stmt : Stmt Action) : Relieved stmt stmt :=
  ⟨[], List.nil_subset _, .refl stmt⟩

theorem trans {original middle stmt : Stmt Action} (early : Relieved original middle)
    (late : Relieved middle stmt) : Relieved original stmt := by
  obtain ⟨lost, only, stays⟩ := early
  obtain ⟨lost', only', stays'⟩ := late
  exact ⟨lost' ++ lost, List.append_subset.mpr ⟨only', only⟩, stays'.trans stays⟩

instance : Std.Refl (@Relieved Action) := ⟨refl⟩

instance : IsTrans (Stmt Action) Relieved := ⟨fun _ _ _ early late => early.trans late⟩

end Stmt.Relieved

/-- What becomes of a block from which nothing is counted as removed. -/
structure Block.Relieved (original block : Block Action) : Prop where
  opening : block.opening = original.opening
  stmts : List.Forall₂ Stmt.Relieved original.stmts block.stmts
  closing : block.closing = original.closing

namespace Block.Relieved

theorem refl (block : Block Action) : Relieved block block :=
  ⟨rfl, List.forall₂_refl block.stmts, rfl⟩

theorem trans {original middle block : Block Action} (early : Relieved original middle)
    (late : Relieved middle block) : Relieved original block :=
  ⟨late.opening.trans early.opening, forall₂_trans early.stmts late.stmts,
    late.closing.trans early.closing⟩

/-- A statement is put in front of the others. -/
theorem cons {opening closing : Text} {original stmt : Stmt Action} {rest : List (Stmt Action)}
    {block : Block Action} (first : Stmt.Relieved original stmt)
    (later : Relieved ⟨opening, rest, closing⟩ block) :
    Relieved ⟨opening, original :: rest, closing⟩ { block with stmts := stmt :: block.stmts } :=
  ⟨later.opening, .cons first later.stmts, later.closing⟩

/-- One statement of a block loses markers. -/
theorem replace (opening : Text) (front : List (Stmt Action)) {original stmt : Stmt Action}
    (relieved : Stmt.Relieved original stmt) (back : List (Stmt Action)) (closing : Text) :
    Relieved ⟨opening, front ++ original :: back, closing⟩
      ⟨opening, front ++ stmt :: back, closing⟩ :=
  ⟨rfl, List.rel_append (List.forall₂_refl front) (.cons relieved (List.forall₂_refl back)), rfl⟩

/-- The statements that stay hold the same function values. -/
theorem closureBodies_eq {original block : Block Deinstrument.Action}
    (relieved : Relieved original block) :
    Engine.closureBodies block.stmts = Engine.closureBodies original.stmts := by
  obtain ⟨opening, stmts, closing⟩ := original
  obtain ⟨opening', stmts', closing'⟩ := block
  have hstmts : List.Forall₂ Stmt.Relieved stmts stmts' := relieved.stmts
  clear relieved
  induction hstmts with
  | nil => rfl
  | cons first rest ih =>
      obtain ⟨lost, -, stays⟩ := first
      simp only [Engine.closureBodies, List.flatMap_cons, stays.action] at ih ⊢
      rw [ih]

end Block.Relieved

/-! ## Regions -/

/-- Where no region is removed, start markers go and all else stays. -/
theorem Region.remove_relieved (block : Block Action) (none : (remove block).2 = []) :
    block.Relieved (remove block).1 := by
  induction block using remove_induction with
  | nil opening closing => exact .refl _
  | keep opening stmt rest closing result shut ih =>
      exact (ih none).cons (.refl stmt)
  | drop opening stmt rest closing result opened ih =>
      exact (ih none).cons ⟨[.regionStart], by simp, staysAs_openedAt stmt⟩
  | cut opening stmt rest closing inside outside result opened closed ih => cases none

/-! ## Spans -/

namespace Span

/-- What a scan without a tag comes to: a span to remove, a list in which it
acts on nothing, or a statement with the end of a span that has no statements. -/
theorem scanFrom_of_no_tags (front inside rest : List (Stmt Action))
    (untagged : (scanFrom front inside rest).2 = 0) :
    (∃ cut, (scanFrom front inside rest).1 = .found cut) ∨
    ((scanFrom front inside rest).1 = .done (front ++ inside ++ rest) ∧ rest.any acts = false) ∨
    ∃ earlier stmt later, front ++ inside ++ rest = earlier ++ stmt :: later ∧
      stmt.hasBefore .spanEnd = true ∧
      (scanFrom front inside rest).1 =
        .hollow (earlier ++ ((stmt.stripBefore .spanEnd).1.stripBefore .spanStart).1 :: later) := by
  induction rest generalizing front inside with
  | nil => exact .inr (.inl ⟨by simp [scanFrom], rfl⟩)
  | cons stmt rest ih =>
      obtain ⟨front', inside', hjoin, hscan⟩ := scanFrom_cons front inside stmt rest
      rw [hscan] at untagged ⊢
      rw [← hjoin]
      by_cases hbefore : stmt.hasBefore .spanEnd = true
      · rw [if_pos hbefore]
        split
        · rename_i hempty
          rw [List.isEmpty_iff] at hempty
          exact .inr (.inr ⟨front', stmt, rest, by simp [hempty], hbefore, rfl⟩)
        · exact .inl ⟨_, rfl⟩
      · rw [if_neg hbefore] at untagged ⊢
        by_cases hafter : stmt.hasAfter .spanEnd = true
        · rw [if_pos hafter]
          exact .inl ⟨_, rfl⟩
        · rw [if_neg hafter] at untagged ⊢
          by_cases htagged : stmt.hasBefore .instrumented = true
          · have hcounted : 0 < (stmt.strip .instrumented).2 :=
              Nat.lt_add_right _ (Stmt.stripBefore_pos_iff.mpr htagged)
            rw [if_pos htagged] at untagged
            simp only [Nat.add_eq_zero_iff] at untagged
            omega
          · rw [if_neg htagged] at untagged ⊢
            have later := ih front' (inside' ++ [stmt]) untagged
            have hacts : (stmt :: rest).any acts = rest.any acts := by
              simp [acts, hbefore, hafter, htagged]
            rw [hacts]
            simpa only [List.append_assoc, List.singleton_append] using later

/-- What the first of several scans comes to if they count nothing: there is
nothing to act on, or the markers of a span without statements are dropped. -/
theorem removeUpTo_of_no_counts {fuel : Nat} {block : Block Action}
    (none : (removeUpTo (fuel + 1) block).2 = ⟨0, 0⟩) :
    (block.stmts.any acts = false ∧ (removeUpTo (fuel + 1) block).1 = block) ∨
    ∃ earlier stmt later, block.stmts = earlier ++ stmt :: later ∧
      stmt.hasBefore .spanEnd = true ∧
      removeUpTo (fuel + 1) block = removeUpTo fuel { block with
        stmts := earlier ++
          ((stmt.stripBefore .spanEnd).1.stripBefore .spanStart).1 :: later } := by
  have hscan := scanFrom_of_no_tags [] [] block.stmts
  change (scan block.stmts).2 = 0 → _ at hscan
  rw [removeUpTo] at none ⊢
  rcases hfound : scan block.stmts with ⟨result, tags⟩
  rw [show scanFrom [] [] block.stmts = (result, tags) from hfound] at hscan
  simp only [hfound] at none hscan ⊢
  have htags : tags = 0 := by
    cases result <;> simp only [Counts.mk.injEq, Nat.add_eq_zero_iff] at none <;> omega
  subst htags
  obtain ⟨cut, rfl⟩ | ⟨rfl, hidle⟩ | ⟨earlier, stmt, later, hstmts, hended, rfl⟩ := hscan rfl
  · simp at none
  · exact .inl ⟨hidle, rfl⟩
  · refine .inr ⟨earlier, stmt, later, hstmts, hended, ?_⟩
    simp

/-- Where no span and no tag is counted, markers of spans without statements go
and all else stays. -/
theorem removeUpTo_relieved {fuel : Nat} {block : Block Action}
    (none : (removeUpTo fuel block).2 = ⟨0, 0⟩) : block.Relieved (removeUpTo fuel block).1 := by
  induction fuel generalizing block with
  | zero => exact .refl block
  | succ fuel ih =>
      obtain ⟨-, hsame⟩ | ⟨earlier, stmt, later, hstmts, -, hnext⟩ := removeUpTo_of_no_counts none
      · rw [hsame]
        exact .refl block
      · rw [hnext] at none ⊢
        obtain ⟨opening, stmts, closing⟩ := block
        simp only at hstmts
        subst hstmts
        have hdropped : Stmt.Relieved stmt
            ((stmt.stripBefore .spanEnd).1.stripBefore .spanStart).1 :=
          ⟨_, by simp, ((stmt.stripBefore .spanEnd).1.staysAs_stripBefore .spanStart).trans
            (stmt.staysAs_stripBefore .spanEnd)⟩
        exact (Block.Relieved.replace opening earlier hdropped later closing).trans (ih none)

/-- Without the end of a span above a statement, whatever a scan acts on is
counted. -/
theorem not_acts_of_no_counts {block : Block Action} (none : (remove block).2 = ⟨0, 0⟩)
    (unended : Marker.spanEnd.AboveNone block.stmts) : block.stmts.any acts = false := by
  obtain ⟨hidle, -⟩ | ⟨earlier, stmt, later, hstmts, hended, -⟩ := removeUpTo_of_no_counts none
  · exact hidle
  · exact absurd (Stmt.hasBefore_iff.mp hended) (unended stmt (by simp [hstmts]))

end Span

end Blocks

/-- The bodies of the functions among items, each followed by the bodies of the
function values that its statements hold directly. -/
def Code.blocks (items : List Item) : List (Block Action) :=
  (bodies items).flatMap fun body => body :: Engine.closureBodies body.stmts

theorem Code.blocks_cons (item : Item) (rest : List Item) :
    blocks (item :: rest) = blocks [item] ++ blocks rest := by
  rw [blocks, bodies_cons, List.flatMap_append]
  rfl

theorem Code.isActionable_eq_any_blocks (items : List Item) :
    isActionable items = (blocks items).any Block.isActionable := by
  simp only [isActionable, blocks, List.any_flatMap, List.any_cons]
  rfl

namespace Engine

/-! ## Counts of blocks -/

/-- No region, no span and no tag was counted for a block. -/
def Removal.IsEmpty (removal : Removal) : Prop :=
  removal.regions = 0 ∧ removal.spans = 0 ∧ removal.tags = 0

section

variable {engine : Engine} {scope : Scope}

theorem counts_of_isEmpty {block : Block Action}
    (empty : (engine.stripBlock scope block).2.IsEmpty) :
    (Region.remove block).2 = [] ∧ (Span.remove (Region.remove block).1).2 = ⟨0, 0⟩ := by
  obtain ⟨hregions, hspans, htags⟩ := empty
  refine ⟨List.eq_nil_of_length_eq_zero hregions, ?_⟩
  change Span.Counts.mk (engine.stripBlock scope block).2.spans
    (engine.stripBlock scope block).2.tags = ⟨0, 0⟩
  rw [hspans, htags]

/-- A block for which nothing is counted loses markers at most. -/
theorem stripBlock_relieved {block : Block Action}
    (empty : (engine.stripBlock scope block).2.IsEmpty) :
    block.Relieved (engine.stripBlock scope block).1 := by
  obtain ⟨hregions, hcounts⟩ := counts_of_isEmpty empty
  exact (Region.remove_relieved block hregions).trans (Span.removeUpTo_relieved hcounts)

/-- Where nothing is counted for a block, a run acts on the starts of regions
and the ends of spans above its statements only. -/
theorem not_actionable_iff_of_isEmpty {block : Block Action}
    (empty : (engine.stripBlock scope block).2.IsEmpty) :
    block.isActionable = false ↔
      Marker.regionStart.AboveNone block.stmts ∧ Marker.spanEnd.AboveNone block.stmts := by
  rw [Block.isActionable_eq, Bool.or_eq_false_iff, Region.opens_eq_false_iff]
  constructor
  · rintro ⟨hstarts, hidle⟩
    refine ⟨hstarts, ?_⟩
    intro stmt member hend
    have hacts : Span.acts stmt = true := by simp [Span.acts, Stmt.hasBefore_iff.mpr hend]
    exact List.any_eq_false.mp hidle stmt member hacts
  · rintro ⟨hstarts, hends⟩
    refine ⟨hstarts, ?_⟩
    have hcounts := (counts_of_isEmpty empty).2
    rw [Region.remove_of_not_opens (Region.opens_eq_false_iff.mpr hstarts)] at hcounts
    exact Span.not_acts_of_no_counts hcounts hends

/-- Where nothing is counted for a body, nothing is counted for the function
values that it held in the beginning. -/
theorem isEmpty_of_processBody {body : Block Action}
    (empty : ∀ removal ∈ (engine.processBody scope body).2.1 :: (engine.processBody scope body).2.2,
      removal.IsEmpty) :
    ∀ block ∈ body :: closureBodies body.stmts, (engine.stripBlock scope block).2.IsEmpty := by
  obtain ⟨hbody, hvalues⟩ := List.forall_mem_cons.mp empty
  refine List.forall_mem_cons.mpr ⟨hbody, ?_⟩
  intro block member
  have hwalk := onStmts_walk (engine.stripBlock scope body).1.stmts
  have hbodies := (stripBlock_relieved hbody).closureBodies_eq
  refine hvalues _ ?_
  simp only [processBody, hwalk.removals, hbodies, List.mem_map]
  exact ⟨block, member, rfl⟩

end

/-! ## Counts of files -/

/-- No region, no span and no tag was counted for a file. -/
def Uncounted (report : Report) : Prop :=
  report.regions = 0 ∧ report.spans = 0 ∧ report.tags = 0

theorem uncounted_foldl {report : Report} {removals : List Removal}
    (uncounted : Uncounted (removals.foldl addRemoval report)) :
    Uncounted report ∧ ∀ removal ∈ removals, removal.IsEmpty := by
  induction removals generalizing report with
  | nil => exact ⟨uncounted, by simp⟩
  | cons removal rest ih =>
      obtain ⟨⟨hregions, hspans, htags⟩, hrest⟩ := ih uncounted
      simp only [addRemoval, Nat.add_eq_zero_iff] at hregions hspans htags
      exact ⟨⟨hregions.1, hspans.1, htags.1⟩,
        List.forall_mem_cons.mpr ⟨⟨hregions.2, hspans.2, htags.2⟩, hrest⟩⟩

theorem pruned_foldl (report : Report) (removals : List Removal) :
    (removals.foldl addRemoval report).pruned = report.pruned := by
  induction removals generalizing report with
  | nil => rfl
  | cons removal rest ih => rw [List.foldl_cons, ih, addRemoval]

section

variable (engine : Engine) (scope : Scope)

theorem uncounted_processItem {report : Report} {item : Item}
    (uncounted : Uncounted (engine.processItem scope report item).2) :
    Uncounted report ∧ ∀ block ∈ Code.blocks [item],
      (engine.stripBlock scope block).2.IsEmpty := by
  cases item with
  | text source => exact ⟨uncounted, by simp [Code.blocks, Code.bodies]⟩
  | function decl =>
      obtain ⟨name, head, body⟩ := decl
      cases body with
      | none => exact ⟨uncounted, by simp [Code.blocks, Code.bodies]⟩
      | some body =>
          obtain ⟨hreport, hremovals⟩ := uncounted_foldl uncounted
          refine ⟨hreport, ?_⟩
          simpa [Code.blocks, Code.bodies] using isEmpty_of_processBody hremovals

/-- A file for which nothing is counted has no block for which something is. -/
theorem uncounted_processItems {report : Report} {items : List Item}
    (uncounted : Uncounted (engine.processItems scope report items).2) :
    Uncounted report ∧ ∀ block ∈ Code.blocks items,
      (engine.stripBlock scope block).2.IsEmpty := by
  induction items generalizing report with
  | nil => exact ⟨uncounted, by simp [Code.blocks, Code.bodies]⟩
  | cons item rest ih =>
      obtain ⟨hnext, hrest⟩ := ih uncounted
      obtain ⟨hreport, hitem⟩ := uncounted_processItem engine scope hnext
      rw [Code.blocks_cons]
      exact ⟨hreport, List.forall_mem_append.mpr ⟨hitem, hrest⟩⟩

theorem pruned_processItems (report : Report) (items : List Item) :
    (engine.processItems scope report items).2.pruned = report.pruned := by
  induction items generalizing report with
  | nil => rfl
  | cons item rest ih =>
      rw [processItems, ih]
      cases item with
      | text source => rfl
      | function decl =>
          obtain ⟨name, head, body⟩ := decl
          cases body with
          | none => rfl
          | some body => exact pruned_foldl report _

end

/-- A clean report on a result means that imports were not pruned. -/
theorem source_of_clean {engine : Engine} {printed : Text} {report : Report} {out : Output}
    (unpruned : report.pruned = []) (done : engine.finish printed report = .ok out)
    (clean : out.report.isClean = true) : out.source = printed ∧ Uncounted report := by
  have hcounts (removed : List Text)
      (hclean : { report with pruned := removed }.isClean = true) :
      Uncounted report ∧ report.isClean = true := by
    simp only [Report.isClean, Bool.and_eq_true, beq_iff_eq] at hclean
    obtain ⟨⟨⟨⟨⟨hregions, hspans⟩, htags⟩, hunwrapped⟩, hdropped⟩, -⟩ := hclean
    refine ⟨⟨hregions, hspans, htags⟩, ?_⟩
    simp [Report.isClean, hregions, hspans, htags, hunwrapped, hdropped, unpruned]
  rcases finish_cases done with rfl | ⟨hunclean, rfl⟩
  · exact ⟨rfl, (hcounts _ clean).1⟩
  · rw [(hcounts _ clean).2] at hunclean
    cases hunclean

/-- What a clean report says about a run. The result is the processed file
without any pruning. Each block that was stripped kept its statements and all
comments apart from starts of regions and from markers of spans without
statements. The result is the source exactly if no start of a region and no end
of a span stood above a statement. -/
theorem run_clean_unchanged_iff {engine : Engine} {file source : Text} {root : Go.Node}
    {out : Output} (parsed : Go.parse? source = some root)
    (done : engine.run file source = .ok out) (clean : out.report.isClean = true) :
    let scope : Scope := ⟨Import.ofRoot root, engine.config.packages⟩
    out.source = Code.print (engine.processItems scope (.ofFile file) (Code.items root)).1 ∧
    (∀ block ∈ Code.blocks (Code.items root),
      block.Relieved (engine.stripBlock scope block).1) ∧
    (out.source = source ↔ ∀ block ∈ Code.blocks (Code.items root),
      Marker.regionStart.AboveNone block.stmts ∧ Marker.spanEnd.AboveNone block.stmts) := by
  intro scope
  have hfinish := done
  rw [run_of_parse engine file parsed] at hfinish
  obtain ⟨hprinted, huncounted⟩ := source_of_clean
    (pruned_processItems engine scope (.ofFile file) (Code.items root)) hfinish clean
  obtain ⟨-, hempty⟩ := uncounted_processItems engine scope huncounted
  refine ⟨hprinted, fun block member => stripBlock_relieved (hempty block member), ?_⟩
  have hidle : Code.isActionable (Code.items root) = false ↔
      ∀ block ∈ Code.blocks (Code.items root),
        Marker.regionStart.AboveNone block.stmts ∧ Marker.spanEnd.AboveNone block.stmts := by
    rw [Code.isActionable_eq_any_blocks, List.any_eq_false]
    refine forall₂_congr fun block member => ?_
    rw [Bool.not_eq_true, not_actionable_iff_of_isEmpty (hempty block member)]
  rw [← hidle]
  constructor
  · intro same
    obtain ⟨root', parsed', hsame⟩ := (run_fixed_iff engine file source).mp ⟨out, done, same⟩
    rw [parsed, Option.some.injEq] at parsed'
    rwa [parsed']
  · intro idle
    obtain ⟨out', done', hsource, -⟩ := run_of_not_actionable engine file parsed idle
    rw [done, Except.ok.injEq] at done'
    rw [done', hsource]

/-- The start of a region without an end, and both markers of a span on one
statement. -/
def uncountedSource : Text :=
  ("func f() \x7b\n\t//dd:startwrap\n\ta()\n\t//dd:startinstrument\n" ++
    "\t//dd:endinstrument\n\tb()\n\x7d").toList

theorem run_uncountedSource :
    (ofConfig .standard).run [] uncountedSource =
      .ok ⟨"func f() \x7b\n\ta()\n\tb()\n\x7d".toList, .ofFile []⟩ := by
  decide +kernel

theorem run_clean_unchanged_iff_uncountedSource :
    ∃ root out, Go.parse? uncountedSource = some root ∧
      (ofConfig .standard).run [] uncountedSource = .ok out ∧ out.report.isClean = true ∧
      ¬ ∀ block ∈ Code.blocks (Code.items root),
        Marker.regionStart.AboveNone block.stmts ∧ Marker.spanEnd.AboveNone block.stmts := by
  obtain ⟨root, parsed⟩ := parse_of_run run_uncountedSource
  refine ⟨root, _, parsed, run_uncountedSource, rfl, ?_⟩
  rw [← (run_clean_unchanged_iff parsed run_uncountedSource rfl).2.2]
  decide

/-- A clean report on a result that is not the source. -/
theorem run_clean_changes_uncountedSource :
    ∃ out, (ofConfig .standard).run [] uncountedSource = .ok out ∧
      out.report.isClean = true ∧ out.source ≠ uncountedSource :=
  ⟨_, run_uncountedSource, rfl, by decide⟩

end Engine

end Deinstrument
