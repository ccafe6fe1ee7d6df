import Deinstrument.Proofs.Division

/-!
# Segments of a block

The statements of a block can be plain ones, regions and spans side by side.
Which markers each statement has then is decided by a check that runs along the
segments, and everything that happens to the first statement of a block, or to
the comments above it, is followed here through that check.
-/

namespace Deinstrument

variable {Action : Type}

/-- The two kinds of segments that have a start and an end marker. -/
inductive Shape
  | region
  | span
  deriving Repr, DecidableEq

namespace Shape

def start : Shape → Marker
  | .region => .regionStart
  | .span => .spanStart

def stop : Shape → Marker
  | .region => .regionEnd
  | .span => .spanEnd

theorem start_subset (shape : Shape) : [shape.start] ⊆ [.regionStart, .spanStart] := by
  cases shape <;> decide

end Shape

/-- A segment of a block: a plain statement, or one or more statements between
markers. `behind` tells whether the end marker stands behind the last of them
or above the statement that follows. -/
inductive Segment (Action : Type)
  | plain (stmt : Stmt Action)
  | marked (shape : Shape) (first : Stmt Action) (more : List (Stmt Action)) (behind : Bool)

namespace Segment

def stmts : Segment Action → List (Stmt Action)
  | .plain stmt => [stmt]
  | .marked _ first more _ => first :: more

/-- The statements of several segments. -/
def allStmts (segments : List (Segment Action)) : List (Stmt Action) :=
  segments.flatMap stmts

def plain? : Segment Action → Option (Stmt Action)
  | .plain stmt => some stmt
  | .marked _ _ _ _ => none

/-- The plain statements among several segments. -/
def plains (segments : List (Segment Action)) : List (Stmt Action) :=
  segments.filterMap plain?

/-- Whether there are no markers between a statement and those that follow it,
and only certain ones behind the last of them. -/
def endsWith (marks : List Marker) (stmt : Stmt Action) : List (Stmt Action) → Bool
  | [] => stmt.marksAfter = marks
  | next :: later =>
      decide (stmt.marksAfter = []) && decide (next.marksBefore = []) && endsWith marks next later

/-- Whether the statements of a segment have the markers of the segment and no
others; `above` are the markers that stand in front of its own. -/
def fits (above : List Marker) : Segment Action → Bool
  | .plain stmt => decide (stmt.marksBefore = above) && decide (stmt.marksAfter = [])
  | .marked shape first more behind =>
      decide (first.marksBefore = above ++ [shape.start]) &&
        endsWith (if behind then [shape.stop] else []) first more

/-- The markers that a segment leaves above the next statement. -/
def below : Segment Action → List Marker
  | .plain _ => []
  | .marked shape _ _ behind => if behind then [] else [shape.stop]

/-- Whether segments stand side by side, below certain markers. Others may be
left over behind the last one. -/
def sideBySide (last : List Marker) : List Marker → List (Segment Action) → Bool
  | above, [] => above = last
  | above, segment :: rest => segment.fits above && sideBySide last segment.below rest

/-- Whether the end marker of a span stands above the next statement once the
regions are removed. A region passes on what stands above it. -/
def passes (pending : Bool) : Segment Action → Bool
  | .plain _ => false
  | .marked .region _ _ _ => pending
  | .marked .span _ _ behind => !behind

/-- Whether removing the regions takes the end marker of a span to the end of the
block. -/
def strands : Bool → List (Segment Action) → Bool
  | pending, [] => pending
  | pending, segment :: rest => strands (segment.passes pending) rest

end Segment

/-- A statement that differs from another one at most in what stands above it. -/
structure Stmt.KeptAs (stmt original : Stmt Action) : Prop extends SameAs stmt original where
  after : stmt.after = original.after

namespace Stmt.KeptAs

theorem refl (stmt : Stmt Action) : KeptAs stmt stmt :=
  ⟨.refl stmt, rfl⟩

theorem trans {stmt middle original : Stmt Action} (late : KeptAs stmt middle)
    (early : KeptAs middle original) : KeptAs stmt original :=
  ⟨late.toSameAs.trans early.toSameAs, late.after.trans early.after⟩

theorem marksAfter_eq {stmt original : Stmt Action} (kept : KeptAs stmt original) :
    stmt.marksAfter = original.marksAfter :=
  congrArg Marker.among kept.after

theorem attach (entries : List Text) (stmt : Stmt Action) : KeptAs (stmt.attach entries) stmt :=
  ⟨⟨rfl, rfl, rfl⟩, rfl⟩

theorem stripBefore (stmt : Stmt Action) (marker : Marker) :
    KeptAs (stmt.stripBefore marker).1 stmt :=
  ⟨⟨rfl, rfl, rfl⟩, rfl⟩

end Stmt.KeptAs

namespace Segment

/-! ## Changing the first statement -/

@[simp]
theorem allStmts_nil : allStmts ([] : List (Segment Action)) = [] := rfl

@[simp]
theorem allStmts_cons (segment : Segment Action) (rest : List (Segment Action)) :
    allStmts (segment :: rest) = segment.stmts ++ allStmts rest := by
  simp [allStmts]

/-- Change the first statement of a segment. -/
def mapFirst (change : Stmt Action → Stmt Action) : Segment Action → Segment Action
  | .plain stmt => .plain (change stmt)
  | .marked shape first more behind => .marked shape (change first) more behind

theorem endsWith_congr {marks : List Marker} {stmt other : Stmt Action}
    (same : stmt.marksAfter = other.marksAfter) (rest : List (Stmt Action)) :
    endsWith marks stmt rest = endsWith marks other rest := by
  cases rest <;> simp [endsWith, same]

theorem endsWith_nil {marks : List Marker} {stmt : Stmt Action} :
    endsWith marks stmt [] = true ↔ stmt.marksAfter = marks :=
  decide_eq_true_iff

theorem endsWith_cons {marks : List Marker} {stmt next : Stmt Action}
    {later : List (Stmt Action)} :
    endsWith marks stmt (next :: later) = true ↔
      stmt.marksAfter = [] ∧ next.marksBefore = [] ∧ endsWith marks next later = true := by
  simp only [endsWith, Bool.and_eq_true, decide_eq_true_eq, and_assoc]

/-- Statements that follow without markers belong to the same segment. -/
theorem endsWith_append {marks : List Marker} {first next : Stmt Action}
    {more later : List (Stmt Action)} (hfirst : endsWith [] first more = true)
    (hnext : next.marksBefore = []) (hlater : endsWith marks next later = true) :
    endsWith marks first (more ++ next :: later) = true := by
  induction more generalizing first with
  | nil => exact endsWith_cons.mpr ⟨endsWith_nil.mp hfirst, hnext, hlater⟩
  | cons second rest ih =>
      obtain ⟨hafter, hsecond, hrest⟩ := endsWith_cons.mp hfirst
      exact endsWith_cons.mpr ⟨hafter, hsecond, ih hrest⟩

theorem fits_plain {above : List Marker} {stmt : Stmt Action} :
    (plain stmt).fits above = true ↔ stmt.marksBefore = above ∧ stmt.marksAfter = [] := by
  simp only [fits, Bool.and_eq_true, decide_eq_true_eq]

theorem fits_marked {above : List Marker} {shape : Shape} {first : Stmt Action}
    {more : List (Stmt Action)} {behind : Bool} :
    (marked shape first more behind).fits above = true ↔
      first.marksBefore = above ++ [shape.start] ∧
        endsWith (if behind then [shape.stop] else []) first more = true := by
  simp only [fits, Bool.and_eq_true, decide_eq_true_eq]

theorem sideBySide_cons {above last : List Marker} {segment : Segment Action}
    {rest : List (Segment Action)} :
    sideBySide last above (segment :: rest) = true ↔
      segment.fits above = true ∧ sideBySide last segment.below rest = true := by
  simp only [sideBySide, Bool.and_eq_true]

theorem fits_mapFirst {above above' : List Marker} {change : Stmt Action → Stmt Action}
    (keeps : ∀ stmt, Stmt.KeptAs (change stmt) stmt)
    (marks : ∀ stmt own, own ⊆ [.regionStart, .spanStart] → stmt.marksBefore = above ++ own →
      (change stmt).marksBefore = above' ++ own)
    {segment : Segment Action} (fit : segment.fits above = true) :
    (segment.mapFirst change).fits above' = true := by
  cases segment with
  | plain stmt =>
      obtain ⟨hbefore, hafter⟩ := fits_plain.mp fit
      have hmarks := marks stmt [] (List.nil_subset _) (by rw [hbefore, List.append_nil])
      rw [List.append_nil] at hmarks
      exact fits_plain.mpr ⟨hmarks, (keeps stmt).marksAfter_eq.trans hafter⟩
  | marked shape first more behind =>
      obtain ⟨hbefore, hends⟩ := fits_marked.mp fit
      have hmarks := marks first [shape.start] shape.start_subset hbefore
      rw [← endsWith_congr (keeps first).marksAfter_eq] at hends
      exact fits_marked.mpr ⟨hmarks, hends⟩

@[simp]
theorem below_mapFirst (change : Stmt Action → Stmt Action) (segment : Segment Action) :
    (segment.mapFirst change).below = segment.below := by
  cases segment <;> rfl

@[simp]
theorem passes_mapFirst (change : Stmt Action → Stmt Action) (pending : Bool)
    (segment : Segment Action) :
    (segment.mapFirst change).passes pending = segment.passes pending := by
  cases segment with
  | plain stmt => rfl
  | marked shape first more behind => cases shape <;> rfl

theorem strands_modifyHead (change : Stmt Action → Stmt Action) (pending : Bool)
    (segments : List (Segment Action)) :
    strands pending (segments.modifyHead (mapFirst change)) = strands pending segments := by
  cases segments with
  | nil => rfl
  | cons segment rest => simp [strands]

end Segment

/-- A block whose statements are segments side by side. Its plain statements are
given ones, and comments may have been put in front of its closing text. -/
structure Arranged (above last : List Marker) (kept : List (Stmt Action)) (closing : Text)
    (segments : List (Segment Action)) (block : Block Action) : Prop where
  stmts_eq : block.stmts = Segment.allStmts segments
  sideBySide : Segment.sideBySide last above segments = true
  plains : List.Forall₂ Stmt.KeptAs (Segment.plains segments) kept
  closing_eq : ∃ comments, block.closing = comments.flatten ++ closing ∧
    Marker.among comments = last

namespace Arranged

variable {above last : List Marker} {kept : List (Stmt Action)} {closing : Text}
  {segments : List (Segment Action)} {block : Block Action}

/-- Taking the first segment off, and putting it back in front of other ones. -/
theorem uncons {segment : Segment Action} {rest : List (Segment Action)}
    (arranged : Arranged above last kept closing (segment :: rest) block) :
    segment.fits above = true ∧ ∃ others,
      Arranged segment.below last others closing rest
        { block with stmts := Segment.allStmts rest } ∧
      ∀ last' left (result : Block Action),
        Arranged segment.below last' others closing left result →
          Arranged above last' kept closing (segment :: left)
            { result with stmts := segment.stmts ++ result.stmts } := by
  obtain ⟨-, sideBySide, plains, closing_eq⟩ := arranged
  obtain ⟨fit, hrest⟩ := Segment.sideBySide_cons.mp sideBySide
  refine ⟨fit, ?_⟩
  cases segment with
  | plain stmt =>
      obtain ⟨original, others, hstmt, hothers, rfl⟩ := List.forall₂_cons_left_iff.mp plains
      refine ⟨others, ⟨rfl, hrest, hothers, closing_eq⟩, ?_⟩
      intro last' left result arranged
      exact ⟨by simp [arranged.stmts_eq], Segment.sideBySide_cons.mpr ⟨fit, arranged.sideBySide⟩,
        .cons hstmt arranged.plains, arranged.closing_eq⟩
  | marked shape first more behind =>
      refine ⟨kept, ⟨rfl, hrest, plains, closing_eq⟩, ?_⟩
      intro last' left result arranged
      exact ⟨by simp [arranged.stmts_eq], Segment.sideBySide_cons.mpr ⟨fit, arranged.sideBySide⟩,
        arranged.plains, arranged.closing_eq⟩

/-- Without segments the markers above are those that are left over. -/
theorem above_eq_last (arranged : Arranged above last kept closing [] block) : above = last :=
  decide_eq_true_iff.mp arranged.sideBySide

/-- Taking off a first segment that is no plain statement. -/
theorem uncons_marked {shape : Shape} {first : Stmt Action} {more : List (Stmt Action)}
    {behind : Bool} {opening text : Text} {stmts : List (Stmt Action)}
    (arranged : Arranged above last kept closing (.marked shape first more behind :: segments)
      ⟨opening, stmts, text⟩) :
    stmts = first :: (more ++ Segment.allStmts segments) ∧
      first.marksBefore = above ++ [shape.start] ∧
      Segment.endsWith (if behind then [shape.stop] else []) first more = true ∧
      Arranged (if behind then [] else [shape.stop]) last kept closing segments
        ⟨opening, Segment.allStmts segments, text⟩ := by
  obtain ⟨stmts_eq, sideBySide, plains, closing_eq⟩ := arranged
  obtain ⟨fit, hrest⟩ := Segment.sideBySide_cons.mp sideBySide
  obtain ⟨hbefore, hends⟩ := Segment.fits_marked.mp fit
  exact ⟨by simpa [Segment.stmts] using stmts_eq, hbefore, hends, rfl, hrest, plains, closing_eq⟩

/-- Changing what stands above the first statement. -/
theorem modifyHead (arranged : Arranged above last kept closing segments block)
    (nonempty : segments ≠ []) {change : Stmt Action → Stmt Action} {above' : List Marker}
    (keeps : ∀ stmt, Stmt.KeptAs (change stmt) stmt)
    (marks : ∀ stmt own, own ⊆ [.regionStart, .spanStart] → stmt.marksBefore = above ++ own →
      (change stmt).marksBefore = above' ++ own) :
    Arranged above' last kept closing (segments.modifyHead (Segment.mapFirst change))
      { block with stmts := block.stmts.modifyHead change } := by
  obtain ⟨stmts_eq, sideBySide, plains, closing_eq⟩ := arranged
  cases segments with
  | nil => contradiction
  | cons segment rest =>
      obtain ⟨fit, hrest⟩ := Segment.sideBySide_cons.mp sideBySide
      have hside : Segment.sideBySide last above' (segment.mapFirst change :: rest) = true := by
        rw [Segment.sideBySide_cons, Segment.below_mapFirst]
        exact ⟨Segment.fits_mapFirst keeps marks fit, hrest⟩
      cases segment with
      | plain stmt =>
          obtain ⟨original, others, hstmt, hothers, rfl⟩ := List.forall₂_cons_left_iff.mp plains
          exact ⟨by simp [stmts_eq, Segment.mapFirst, Segment.stmts], hside,
            .cons ((keeps stmt).trans hstmt) hothers, closing_eq⟩
      | marked shape first more behind =>
          exact ⟨by simp [stmts_eq, Segment.mapFirst, Segment.stmts], hside, plains, closing_eq⟩

/-- The first statement has the markers in front of the first segment, and a
start marker at most. -/
theorem exists_cons (arranged : Arranged above last kept closing segments block)
    (nonempty : segments ≠ []) : ∃ next later own, block.stmts = next :: later ∧
      own ⊆ [.regionStart, .spanStart] ∧ next.marksBefore = above ++ own := by
  cases segments with
  | nil => contradiction
  | cons segment rest =>
      have fit := arranged.uncons.1
      cases segment with
      | plain stmt =>
          exact ⟨stmt, Segment.allStmts rest, [], by simp [arranged.stmts_eq, Segment.stmts],
            List.nil_subset _, by simp [(Segment.fits_plain.mp fit).1]⟩
      | marked shape first more behind =>
          exact ⟨first, more ++ Segment.allStmts rest, [shape.start],
            by simp [arranged.stmts_eq, Segment.stmts], shape.start_subset,
            (Segment.fits_marked.mp fit).1⟩

/-- Comments that are put above the first statement bring their markers. -/
theorem addAbove (arranged : Arranged above last kept closing segments block)
    (nonempty : segments ≠ []) (entries : List Text) :
    Arranged (Marker.among entries ++ above) last kept closing
      (segments.modifyHead (Segment.mapFirst (Stmt.attach entries))) (block.addAbove entries) := by
  have hchanged : Arranged (Marker.among entries ++ above) last kept closing
      (segments.modifyHead (Segment.mapFirst (Stmt.attach entries)))
      { block with stmts := block.stmts.modifyHead (Stmt.attach entries) } := by
    refine arranged.modifyHead nonempty (Stmt.KeptAs.attach entries) ?_
    intro stmt own _ hstmt
    simp [hstmt]
  obtain ⟨next, later, own, hstmts, -⟩ := arranged.exists_cons nonempty
  simpa [Block.addAbove, hstmts] using hchanged

/-- An end marker above the first statement can be dropped. -/
theorem stripStop (shape : Shape)
    (arranged : Arranged [shape.stop] last kept closing segments block) (nonempty : segments ≠ []) :
    let change (stmt : Stmt Action) := (stmt.stripBefore shape.stop).1
    Arranged [] last kept closing (segments.modifyHead (Segment.mapFirst change))
      { block with stmts := block.stmts.modifyHead change } := by
  refine arranged.modifyHead nonempty (fun stmt => .stripBefore stmt shape.stop) ?_
  intro stmt own hown hstmt
  have habsent : shape.stop ∉ own := by
    intro member
    have hstart := hown member
    cases shape <;> simp [Shape.stop] at hstart
  have hown : own.filter (· ≠ shape.stop) = own := by
    rw [List.filter_eq_self]
    intro marker member
    simpa using ne_of_mem_of_not_mem member habsent
  rw [Stmt.marksBefore_stripBefore, hstmt, List.filter_append, hown]
  simp

/-- Comments that are put in front of the closing text leave their markers over. -/
theorem addAbove_nil (arranged : Arranged above [] kept closing [] block) (entries : List Text) :
    Arranged (Marker.among entries) (Marker.among entries) kept closing []
      (block.addAbove entries) := by
  obtain ⟨stmts_eq, -, plains, comments, hclosing, hmarks⟩ := arranged
  obtain ⟨opening, stmts, text⟩ := block
  simp only [Segment.allStmts_nil] at stmts_eq hclosing
  subst stmts_eq
  refine ⟨rfl, by simp [Segment.sideBySide], plains, entries ++ comments, ?_, ?_⟩
  · simp [Block.addAbove, hclosing]
  · simp [hmarks]

end Arranged

end Deinstrument
