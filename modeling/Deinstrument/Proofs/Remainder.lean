import Deinstrument.Proofs.Marking
import Deinstrument.Proofs.Run

/-!
# Markers that are left

The printed body of a function consists of comments attached to statements,
the texts of braces, and code. The markers left in a body are those among the
attached comments and those that start a line beside a brace, in function
values at any depth as well. Code is not searched: what is inside a statement
that is kept as it stands, or between the parts of an expression, is no marker.
-/

namespace Deinstrument

/-! ## Fragments of a body -/

/-- A fragment of the text of a body. -/
inductive Fragment
  /-- A comment attached to a statement. -/
  | comment (entry : Text)
  /-- An opening brace with the comments on its line. -/
  | opening (source : Text)
  /-- The text behind the last statement of a block, with the closing brace. -/
  | closing (source : Text)
  /-- Any other text. -/
  | code (source : Text)
  deriving Repr, DecidableEq

namespace Fragment

def text : Fragment → Text
  | comment entry => entry
  | opening source => source
  | closing source => source
  | code source => source

/-- The markers that a fragment shows: an attached comment, or the start of a
line beside a brace. -/
def markers : Fragment → List Marker
  | comment entry => Marker.among [entry]
  | opening source => Marker.among (Text.lines (source.dropWhile (· == '{')))
  | closing source => Marker.among (Text.lines source)
  | code _ => []

end Fragment

mutual

def Expr.fragments : Expr → List Fragment
  | .ident name => [.code name]
  | .selector lead operand dot name tail =>
      [.code lead] ++ operand.fragments ++ [.code (dot ++ name ++ tail)]
  | .call lead callee ⟨gap, items⟩ =>
      [.code lead] ++ callee.fragments ++ [.code gap] ++ fragmentsItems items
  | .literal lead type ⟨gap, items⟩ =>
      [.code lead] ++ type.fragments ++ [.code gap] ++ fragmentsItems items
  | .elements ⟨gap, items⟩ => [.code gap] ++ fragmentsItems items
  | .keyed lead key colon value tail =>
      [.code lead] ++ key.fragments ++ [.code colon] ++ value.fragments ++ [.code tail]
  | .function head body => [.code head] ++ fragmentsBlock body
  | .other _ ⟨gap, items⟩ => [.code gap] ++ fragmentsItems items

def fragmentsItems : List (Spaced Expr) → List Fragment
  | [] => []
  | ⟨value, gap⟩ :: rest => value.fragments ++ [.code gap] ++ fragmentsItems rest

def Action.fragments : Action → List Fragment
  | .expression lead value tail => [.code lead] ++ value.fragments ++ [.code tail]
  | .assignment ⟨lead, targets⟩ ⟨gap, values⟩ =>
      [.code lead] ++ fragmentsItems targets ++ [.code gap] ++ fragmentsItems values
  | .results ⟨lead, items⟩ => [.code lead] ++ fragmentsItems items
  | .verbatim text => [.code text]

/-- The fragments of a block in the order of its text, those of the function
values in it included. -/
def fragmentsBlock : Block Action → List Fragment
  | ⟨opening, stmts, closing⟩ => [.opening opening] ++ fragmentsStmts stmts ++ [.closing closing]

def fragmentsStmts : List (Stmt Action) → List Fragment
  | [] => []
  | ⟨before, space, action, terminator, after, _⟩ :: rest =>
      before.map .comment ++ [.code space] ++ action.fragments ++ [.code terminator] ++
        after.map .comment ++ fragmentsStmts rest

end

/-! ## Fragments and markers -/

/-- The number of markers of the blocks that a traversal meets. -/
def Visit.markerCount (visits : List Visit) : Nat :=
  ((visits.filterMap block?).map Block.ownMarkerCount).sum

@[simp]
theorem Visit.markerCount_nil : markerCount [] = 0 := rfl

@[simp]
theorem Visit.markerCount_expr (met : Expr) (rest : List Visit) :
    markerCount (.expr met :: rest) = markerCount rest := rfl

@[simp]
theorem Visit.markerCount_stmt (met : Stmt Action) (rest : List Visit) :
    markerCount (.stmt met :: rest) = markerCount rest := rfl

@[simp]
theorem Visit.markerCount_append (front back : List Visit) :
    markerCount (front ++ back) = markerCount front + markerCount back := by
  simp [markerCount]

/-- Fragments make up a text, and they show as many markers as a traversal
counts, besides `own` markers of statements whose block is not met. -/
structure Fragment.Cover (fragments : List Fragment) (own : Nat) (visits : List Visit)
    (source : Text) : Prop where
  text : fragments.flatMap text = source
  count : (fragments.flatMap markers).length = own + Visit.markerCount visits

theorem Fragment.markers_comments (entries : List Text) :
    (entries.map comment).flatMap markers = Marker.among entries := by
  induction entries with
  | nil => rfl
  | cons entry rest ih =>
      rw [List.map_cons, List.flatMap_cons, ih]
      exact (Marker.among_append [entry] rest).symm

namespace Fragment.Cover

theorem code (source : Text) : Cover [.code source] 0 [] source :=
  ⟨by simp [Fragment.text], rfl⟩

theorem append {front back : List Fragment} {own own' : Nat} {visits visits' : List Visit}
    {source source' : Text} (first : Cover front own visits source)
    (second : Cover back own' visits' source') :
    Cover (front ++ back) (own + own') (visits ++ visits') (source ++ source') where
  text := by rw [List.flatMap_append, first.text, second.text]
  count := by
    rw [List.flatMap_append, List.length_append, first.count, second.count,
      Visit.markerCount_append]
    omega

theorem of_eq {fragments : List Fragment} {own own' : Nat} {visits visits' : List Visit}
    {source source' : Text} (cover : Cover fragments own visits source) (hown : own' = own)
    (hvisits : Visit.markerCount visits' = Visit.markerCount visits) (hsource : source' = source) :
    Cover fragments own' visits' source' := by
  rw [hown, hsource]
  exact ⟨cover.text, by rw [cover.count, hvisits]⟩

theorem comments (entries : List Text) :
    Cover (entries.map .comment) (entries.countP fun entry => (Marker.classify entry).isSome) []
      entries.flatten where
  text := by simp [List.flatMap_map, Fragment.text]
  count := by
    rw [markers_comments, Marker.among, List.length_filterMap_eq_countP]
    rfl

/-- The fragments of a block show the markers of its statements, and those of
its braces. -/
theorem block {fragments : List Fragment} {visits : List Visit} {source : Text}
    (block : Block Action)
    (stmts : Cover fragments (block.stmts.map Stmt.markerCount).sum visits source) :
    Cover ([.opening block.opening] ++ fragments ++ [.closing block.closing]) 0
      (.block block :: visits) (block.opening ++ source ++ block.closing) where
  text := by simp [Fragment.text, stmts.text]
  count := by
    have hmet : Visit.markerCount (.block block :: visits) =
        block.ownMarkerCount + Visit.markerCount visits := by
      simp [Visit.markerCount, Visit.block?]
    have hbraces : (Marker.among (Text.lines (block.opening.dropWhile (· == '{')))).length +
        (Marker.among (Text.lines block.closing)).length =
        (Text.lines (block.opening.dropWhile (· == '{')) ++ Text.lines block.closing).countP
          fun line => (Marker.classify line).isSome := by
      rw [List.countP_append]
      simp only [Marker.among, List.length_filterMap_eq_countP]
    have hstmts := stmts.count
    rw [hmet, Block.ownMarkerCount, ← hbraces]
    simp only [List.flatMap_append, List.flatMap_cons, List.flatMap_nil, List.length_append,
      Fragment.markers, List.append_nil, hstmts]
    change _ = 0 + ((block.stmts.map Stmt.markerCount).sum + _ + _)
    omega

end Fragment.Cover

open Fragment (Cover)

mutual

theorem Expr.cover : (expr : Expr) → Cover expr.fragments 0 expr.visits expr.print
  | .ident name => (Cover.code name).of_eq rfl rfl rfl
  | .selector lead operand dot name tail =>
      (((Cover.code lead).append operand.cover).append (.code (dot ++ name ++ tail))).of_eq
        rfl (by simp [Expr.visits]) (by simp [Expr.print])
  | .call lead callee ⟨gap, items⟩ =>
      ((((Cover.code lead).append callee.cover).append (.code gap)).append
        (cover_items items)).of_eq rfl (by simp [Expr.visits]) rfl
  | .literal lead type ⟨gap, items⟩ =>
      ((((Cover.code lead).append type.cover).append (.code gap)).append
        (cover_items items)).of_eq rfl (by simp [Expr.visits]) rfl
  | .elements ⟨gap, items⟩ =>
      ((Cover.code gap).append (cover_items items)).of_eq rfl (by simp [Expr.visits]) rfl
  | .keyed lead key colon value tail =>
      (((((Cover.code lead).append key.cover).append (.code colon)).append value.cover).append
        (.code tail)).of_eq rfl (by simp [Expr.visits]) rfl
  | .function head body =>
      ((Cover.code head).append (cover_block body)).of_eq rfl (by simp [Expr.visits]) rfl
  | .other _ ⟨gap, items⟩ =>
      ((Cover.code gap).append (cover_items items)).of_eq rfl (by simp [Expr.visits]) rfl

theorem cover_items : (items : List (Spaced Expr)) →
    Cover (fragmentsItems items) 0 (visitsItems items) (printItems items)
  | [] => ⟨rfl, rfl⟩
  | ⟨value, gap⟩ :: rest =>
      ((value.cover.append (.code gap)).append (cover_items rest)).of_eq rfl
        (by simp [visitsItems]) rfl

theorem Action.cover : (action : Action) → Cover action.fragments 0 action.visits action.print
  | .expression lead value tail =>
      (((Cover.code lead).append value.cover).append (.code tail)).of_eq rfl
        (by simp [Action.visits]) rfl
  | .assignment ⟨lead, targets⟩ ⟨gap, values⟩ =>
      ((((Cover.code lead).append (cover_items targets)).append (.code gap)).append
        (cover_items values)).of_eq rfl (by simp [Action.visits]) rfl
  | .results ⟨lead, items⟩ =>
      ((Cover.code lead).append (cover_items items)).of_eq rfl (by simp [Action.visits]) rfl
  | .verbatim text => .code text

/-- The fragments of a block make up its text and show the markers counted in
it. -/
theorem cover_block : (block : Block Action) →
    Cover (fragmentsBlock block) 0 (visitsBlock block) (printBlock block)
  | ⟨opening, stmts, closing⟩ => Cover.block ⟨opening, stmts, closing⟩ (cover_stmts stmts)

theorem cover_stmts : (stmts : List (Stmt Action)) →
    Cover (fragmentsStmts stmts) (stmts.map Stmt.markerCount).sum (visitsStmts stmts)
      (printStmts stmts)
  | [] => ⟨rfl, rfl⟩
  | ⟨before, space, action, terminator, after, line⟩ :: rest =>
      ((((((Cover.comments before).append (.code space)).append action.cover).append
        (.code terminator)).append (.comments after)).append (cover_stmts rest)).of_eq
          (by simp [Stmt.markerCount]) (by simp [visitsStmts]) rfl

end

theorem length_markers_fragmentsBlock (block : Block Action) :
    ((fragmentsBlock block).flatMap Fragment.markers).length = block.markerCount :=
  (cover_block block).count.trans (Nat.zero_add _)

/-- No marker is counted in a block exactly if none of its fragments shows one. -/
theorem markerCount_eq_zero_iff (block : Block Action) :
    block.markerCount = 0 ↔ ∀ fragment ∈ fragmentsBlock block, fragment.markers = [] := by
  rw [← length_markers_fragmentsBlock, List.length_eq_zero_iff, List.flatMap_eq_nil_iff]

namespace Engine

/-! ## Files -/

theorem markersLeft_foldl (report : Report) (removals : List Removal) :
    (removals.foldl addRemoval report).markersLeft = report.markersLeft := by
  induction removals generalizing report with
  | nil => rfl
  | cons removal rest ih => rw [List.foldl_cons, ih, addRemoval]

/-- The markers counted for a file are those of the bodies as they are left. -/
theorem markersLeft_processItems (engine : Engine) (scope : Scope) (report : Report)
    (items : List Item) :
    (engine.processItems scope report items).2.markersLeft = report.markersLeft +
      ((Code.bodies (engine.processItems scope report items).1).map Block.markerCount).sum := by
  induction items generalizing report with
  | nil => rfl
  | cons item rest ih =>
      rw [processItems, ih]
      cases item with
      | text source => rfl
      | function decl =>
          obtain ⟨name, head, body⟩ := decl
          cases body with
          | none => rfl
          | some body =>
              simp only [processItem, markersLeft_foldl, Code.bodies, List.filterMap_cons,
                List.map_cons, List.sum_cons, Nat.add_assoc]

/-- The text of a result is the printed file, with or without pruned imports. -/
theorem finish_source {engine : Engine} {printed : Text} {report : Report} {out : Output}
    (done : engine.finish printed report = .ok out) :
    (out.source = printed ∨
      out.source = (Import.prune printed engine.config.packages engine.recover).2) ∧
      out.report.markersLeft = report.markersLeft := by
  rcases finish_cases done with rfl | ⟨-, rfl⟩
  · exact ⟨.inl rfl, rfl⟩
  · exact ⟨.inr rfl, rfl⟩

/-- No marker is counted for a file exactly if none of the fragments of its bodies
shows one. -/
theorem markersLeft_run {engine : Engine} {file source : Text} {root : Go.Node} {out : Output}
    (parsed : Go.parse? source = some root) (done : engine.run file source = .ok out) :
    let items := engine.processed file root
    (out.source = Code.print items ∨
      out.source = (Import.prune (Code.print items) engine.config.packages engine.recover).2) ∧
    (out.report.markersLeft = 0 ↔ ∀ body ∈ Code.bodies items,
      ∀ fragment ∈ fragmentsBlock body, fragment.markers = []) := by
  intro items
  rw [run_of_parse engine file parsed] at done
  obtain ⟨hsource, hmarkers⟩ := finish_source done
  refine ⟨hsource, ?_⟩
  rw [hmarkers, markersLeft_processItems]
  simp only [Report.ofFile, Nat.zero_add, List.sum_eq_zero_iff_forall_eq_nat, List.forall_mem_map,
    markerCount_eq_zero_iff]
  rfl

end Engine

end Deinstrument
