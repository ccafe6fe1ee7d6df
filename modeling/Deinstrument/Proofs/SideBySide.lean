import Deinstrument.Engine
import Deinstrument.Proofs.Arrangement

/-!
# Regions and spans side by side

A block whose statements are plain ones, regions and spans in any order is
stripped down to the plain ones, with one exception. Removing a region hands
the comments above it to whatever follows. If these hold the end marker of a
span and nothing follows, the marker goes into the closing text, where no scan
for spans sees it, and the span is left in the block. This happens exactly if
the last span has its end marker below it and nothing but regions behind it.
-/

namespace Deinstrument

section Removal

variable {Action : Type}

/-! ## Removing the regions -/

namespace Segment

def isRegion : Segment Action → Bool
  | .marked .region _ _ _ => true
  | _ => false

theorem eq_region {segment : Segment Action} (region : segment.isRegion = true) :
    ∃ first more behind, segment = .marked .region first more behind := by
  cases segment with
  | plain stmt => cases region
  | marked shape first more behind =>
      cases shape with
      | region => exact ⟨first, more, behind, rfl⟩
      | span => cases region

theorem eq_span {shape : Shape} {first : Stmt Action} {more : List (Stmt Action)} {behind : Bool}
    (other : (marked shape first more behind).isRegion = false) : shape = .span := by
  cases shape with
  | region => cases other
  | span => rfl

/-- The end marker of a span that regions pass on. -/
def pendingMarks (pending : Bool) : List Marker :=
  if pending then [.spanEnd] else []

theorem pendingMarks_passes {segment : Segment Action} (other : segment.isRegion = false)
    (pending : Bool) : pendingMarks (segment.passes pending) = segment.below := by
  cases segment with
  | plain stmt => rfl
  | marked shape first more behind =>
      obtain rfl := eq_span other
      cases behind <;> rfl

theorem marksBefore_of_endsWith {marks : List Marker} {stmt : Stmt Action}
    {more : List (Stmt Action)} (ends : endsWith marks stmt more = true) :
    ∀ other ∈ more, other.marksBefore = [] := by
  induction more generalizing stmt with
  | nil => simp
  | cons next later ih =>
      obtain ⟨-, hnext, hlater⟩ := endsWith_cons.mp ends
      exact List.forall_mem_cons.mpr ⟨hnext, ih hlater⟩

theorem marksAfter_of_endsWith {stmt : Stmt Action} {more : List (Stmt Action)}
    (ends : endsWith [] stmt more = true) : ∀ other ∈ stmt :: more, other.marksAfter = [] := by
  induction more generalizing stmt with
  | nil => exact List.forall_mem_singleton.mpr (endsWith_nil.mp ends)
  | cons next later ih =>
      obtain ⟨hafter, -, hlater⟩ := endsWith_cons.mp ends
      exact List.forall_mem_cons.mpr ⟨hafter, ih hlater⟩

/-- No region opens within another segment. -/
theorem not_hasBefore_regionStart {segment : Segment Action} (other : segment.isRegion = false)
    {pending : Bool} (fit : segment.fits (pendingMarks pending) = true) :
    ∀ stmt ∈ segment.stmts, stmt.hasBefore .regionStart = false := by
  have hpending : Marker.regionStart ∉ pendingMarks pending := by cases pending <;> decide
  cases segment with
  | plain stmt =>
      obtain ⟨hbefore, -⟩ := fits_plain.mp fit
      simpa [stmts, Stmt.hasBefore_eq, hbefore] using hpending
  | marked shape first more behind =>
      obtain rfl := eq_span other
      obtain ⟨hbefore, hends⟩ := fits_marked.mp fit
      rw [stmts, List.forall_mem_cons]
      refine ⟨by simp [Stmt.hasBefore_eq, hbefore, hpending, Shape.start], ?_⟩
      intro stmt member
      simp [Stmt.hasBefore_eq, marksBefore_of_endsWith hends stmt member]

end Segment

namespace Region

/-- A region ends with the end marker behind its last statement. -/
theorem closeAmong_behind {stmt : Stmt Action} {more : List (Stmt Action)}
    (absent : stmt.hasBefore .regionEnd = false)
    (ends : Segment.endsWith [.regionEnd] stmt more = true) (back : List (Stmt Action)) :
    ∃ inside, closeAmong (stmt :: more ++ back) = some (inside, back) := by
  induction more generalizing stmt with
  | nil =>
      refine ⟨[(stmt.stripAfter .regionEnd).1], ?_⟩
      simp [closeAmong_cons, absent, Stmt.hasAfter_eq, Segment.endsWith_nil.mp ends]
  | cons next later ih =>
      obtain ⟨hafter, hnext, hlater⟩ := Segment.endsWith_cons.mp ends
      obtain ⟨inside, hclosed⟩ := ih (by simp [Stmt.hasBefore_eq, hnext]) hlater
      refine ⟨stmt :: inside, ?_⟩
      rw [List.cons_append, closeAmong_cons, absent, hclosed]
      simp [Stmt.hasAfter_eq, hafter]

/-- A region ends with the end marker above the next statement. -/
theorem closeAmong_below {stmt next : Stmt Action} {more : List (Stmt Action)}
    (absent : stmt.hasBefore .regionEnd = false)
    (ends : Segment.endsWith [] stmt more = true) (ended : next.hasBefore .regionEnd = true)
    (later : List (Stmt Action)) :
    closeAmong (stmt :: more ++ next :: later) =
      some (stmt :: more, (next.stripBefore .regionEnd).1 :: later) := by
  have hafter := Segment.marksAfter_of_endsWith ends
  have unended : ∀ other ∈ stmt :: more,
      other.hasBefore .regionEnd = false ∧ other.hasAfter .regionEnd = false := by
    intro other member
    refine ⟨?_, by simp [Stmt.hasAfter_eq, hafter other member]⟩
    rcases List.mem_cons.mp member with rfl | member
    · exact absent
    · simp [Stmt.hasBefore_eq, Segment.marksBefore_of_endsWith ends other member]
  rw [closeAmong_append unended, closeAmong_cons, ended]
  simp

end Region

namespace Arranged

variable {above last : List Marker} {kept : List (Stmt Action)} {closing : Text}
  {segments : List (Segment Action)} {block : Block Action}

/-- A region ends where its segment does, and its end marker is dropped. -/
theorem close_region {stmt : Stmt Action} {more : List (Stmt Action)} {behind : Bool}
    (markless : stmt.marksBefore = [])
    (ends : Segment.endsWith (if behind then [.regionEnd] else []) stmt more = true)
    (arranged : Arranged (if behind then [] else [.regionEnd]) [] kept closing segments block) :
    ∃ inside outside left, Region.close stmt (more ++ block.stmts) = some (inside, outside) ∧
      Arranged [] [] kept closing left { block with stmts := outside } ∧
      left.length = segments.length ∧
      ∀ pending, Segment.strands pending left = Segment.strands pending segments := by
  have absent : stmt.hasBefore .regionEnd = false := by simp [Stmt.hasBefore_eq, markless]
  rw [Region.close_eq_closeAmong absent]
  cases behind with
  | true =>
      obtain ⟨inside, hclosed⟩ := Region.closeAmong_behind absent ends block.stmts
      exact ⟨inside, block.stmts, segments, hclosed, arranged, rfl, fun _ => rfl⟩
  | false =>
      have nonempty : segments ≠ [] := by
        rintro rfl
        cases arranged.above_eq_last
      obtain ⟨next, later, own, hstmts, -, hnext⟩ := arranged.exists_cons nonempty
      have ended : next.hasBefore .regionEnd = true := by simp [Stmt.hasBefore_eq, hnext]
      have hclosed := Region.closeAmong_below absent ends ended later
      have hleft := arranged.stripStop .region nonempty
      rw [hstmts] at hleft ⊢
      refine ⟨stmt :: more, _, _, hclosed, hleft, List.length_modifyHead, ?_⟩
      exact fun pending => Segment.strands_modifyHead _ pending segments

/-- The first segment is cut out if it is a region, and the comments above it go
to what follows. -/
theorem cut_region {first : Stmt Action} {more : List (Stmt Action)} {behind pending : Bool}
    (arranged : Arranged (Segment.pendingMarks pending) [] kept closing
      (.marked .region first more behind :: segments) block) :
    ∃ moved result left, (Region.remove block).1 = (Region.remove (result.addAbove moved)).1 ∧
      Marker.among moved = Segment.pendingMarks pending ∧
      Arranged [] [] kept closing left result ∧ left.length = segments.length ∧
      Segment.strands pending left = Segment.strands pending segments := by
  obtain ⟨opening, stmts, text⟩ := block
  obtain ⟨rfl, hfirst, hends, hrest⟩ := arranged.uncons_marked
  have hpending : Marker.regionStart ∉ Segment.pendingMarks pending := by
    cases pending <;> decide
  have present : first.hasBefore .regionStart = true := by
    simp [Stmt.hasBefore_eq, hfirst, Shape.start]
  obtain ⟨hcarried, hdetached⟩ : Marker.among (first.detach .regionStart).1 = _ ∧
    (first.detach .regionStart).2.marksBefore = [.regionStart] :=
    Stmt.marks_detach hfirst hpending
  -- The statement at which the region opens has no marker above it any more.
  generalize hopened : ((first.detach .regionStart).2.stripBefore .regionStart).1 = opened
  have hbefore : opened.marksBefore = [] := by simp [← hopened, hdetached]
  have hafter : opened.marksAfter = first.marksAfter := by simp [← hopened]
  rw [← Segment.endsWith_congr hafter] at hends
  obtain ⟨inside, outside, left, hclosed, hleft, hlength, hstrands⟩ :=
    close_region hbefore hends hrest
  rw [← hopened] at hclosed
  rw [Region.remove_cons_of_close present hclosed]
  refine ⟨_, ⟨opening, outside, text⟩, left, rfl, ?_, hleft, hlength, hstrands pending⟩
  rw [Cut.among_moved, hcarried]

theorem remove_eq_self (arranged : Arranged above last kept closing [] block) :
    (Region.remove block).1 = block := by
  obtain ⟨opening, stmts, text⟩ := block
  obtain rfl : stmts = [] := arranged.stmts_eq
  rfl

/-- Removing the regions leaves the other segments side by side. What stands
above a region stands above the next segment then, or in the closing text. -/
theorem remove_regions {pending : Bool}
    (arranged : Arranged (Segment.pendingMarks pending) [] kept closing segments block) :
    ∃ left, Arranged (Segment.pendingMarks pending)
        (Segment.pendingMarks (Segment.strands pending segments)) kept closing left
        (Region.remove block).1 ∧
      ∀ segment ∈ left, segment.isRegion = false := by
  induction hlength : segments.length using Nat.strongRecOn
    generalizing segments block kept pending with
  | ind length ih =>
      cases segments with
      | nil =>
          have hpending := arranged.above_eq_last
          rw [arranged.remove_eq_self, Segment.strands, hpending]
          exact ⟨[], hpending ▸ arranged, List.forall_mem_nil _⟩
      | cons segment rest =>
          cases hshape : segment.isRegion with
          | false =>
              obtain ⟨fit, others, hrest, hcons⟩ := arranged.uncons
              have hstmts := arranged.stmts_eq
              obtain ⟨opening, stmts, text⟩ := block
              simp only [Segment.allStmts_cons] at hstmts
              subst hstmts
              rw [← Segment.pendingMarks_passes hshape pending] at hrest
              obtain ⟨left, hleft, hnone⟩ := ih rest.length (by simp [← hlength]) hrest rfl
              rw [Segment.pendingMarks_passes hshape pending] at hleft
              rw [Region.remove_append_of_not_hasBefore
                (Segment.not_hasBefore_regionStart hshape fit)]
              exact ⟨segment :: left, hcons _ left _ hleft,
                List.forall_mem_cons.mpr ⟨hshape, hnone⟩⟩
          | true =>
              obtain ⟨first, more, behind, rfl⟩ := Segment.eq_region hshape
              obtain ⟨moved, result, left, hresult, hmoved, hleft, hlength', hstrands⟩ :=
                arranged.cut_region
              rw [hresult, Segment.strands, Segment.passes, ← hstrands]
              by_cases nonempty : left = []
              · subst nonempty
                have hjoined := hleft.addAbove_nil moved
                rw [hjoined.remove_eq_self, Segment.strands, ← hmoved]
                exact ⟨[], hjoined, List.forall_mem_nil _⟩
              · have hjoined := hleft.addAbove nonempty moved
                rw [List.append_nil, hmoved] at hjoined
                have later := ih rest.length (by simp [← hlength]) hjoined (by simp [hlength'])
                rwa [Segment.strands_modifyHead] at later

end Arranged

/-! ## Removing the spans -/

/-- No markers stand above a statement or behind it. -/
def Stmt.Unmarked (stmt : Stmt Action) : Prop :=
  stmt.marksBefore = [] ∧ stmt.marksAfter = []

namespace Span

/-- A start marker alone gives a scan nothing to act on. -/
theorem not_acts {stmt : Stmt Action} (hbefore : stmt.marksBefore ⊆ [.spanStart])
    (hafter : stmt.marksAfter = []) : acts stmt = false := by
  have habsent {marker : Marker} (hother : marker ≠ .spanStart) : marker ∉ stmt.marksBefore :=
    fun member => hother (List.mem_singleton.mp (hbefore member))
  simp [acts, Stmt.hasBefore_eq, Stmt.hasAfter_eq, hafter, habsent]

/-- A scan goes on behind a statement at which no span ends. A start marker
makes no difference where a span has just been started. -/
theorem scanFrom_step {front inside rest : List (Stmt Action)} {stmt : Stmt Action}
    (above : stmt.marksBefore = [] ∨ stmt.marksBefore = [.spanStart] ∧ inside = []) :
    scanFrom front inside (stmt :: rest) =
      if stmt.hasAfter .spanEnd then (.found (cutOut front (inside ++ [stmt]) rest), 0)
      else scanFrom front (inside ++ [stmt]) rest := by
  rcases above with hbefore | ⟨hbefore, rfl⟩
  · simp [scanFrom, Stmt.hasBefore_eq, hbefore]
  · simp [scanFrom, Stmt.hasBefore_eq, hbefore]

theorem scanFrom_append {front quiet : List (Stmt Action)}
    (unmarked : ∀ stmt ∈ quiet, stmt.Unmarked) (inside rest : List (Stmt Action)) :
    scanFrom front inside (quiet ++ rest) = scanFrom front (inside ++ quiet) rest := by
  induction quiet generalizing inside with
  | nil => simp
  | cons stmt later ih =>
      rw [List.forall_mem_cons] at unmarked
      obtain ⟨⟨hbefore, hafter⟩, hlater⟩ := unmarked
      rw [List.cons_append, scanFrom_step (.inl hbefore), ih hlater]
      simp [Stmt.hasAfter_eq, hafter]

/-- A scan of statements without markers between them ends behind the last one,
or goes on with what follows. -/
theorem scanFrom_endsWith {front inside more : List (Stmt Action)} {stmt : Stmt Action}
    {behind : Bool}
    (above : stmt.marksBefore = [] ∨ stmt.marksBefore = [.spanStart] ∧ inside = [])
    (ends : Segment.endsWith (if behind then [.spanEnd] else []) stmt more = true)
    (rest : List (Stmt Action)) :
    scanFrom front inside (stmt :: (more ++ rest)) =
      if behind then (.found (cutOut front (inside ++ stmt :: more) rest), 0)
      else scanFrom front (inside ++ stmt :: more) rest := by
  induction more generalizing stmt inside with
  | nil =>
      rw [List.nil_append, scanFrom_step above, Stmt.hasAfter_eq, Segment.endsWith_nil.mp ends]
      cases behind <;> simp
  | cons next later ih =>
      obtain ⟨hafter, hnext, hlater⟩ := Segment.endsWith_cons.mp ends
      rw [List.cons_append, scanFrom_step above, Stmt.hasAfter_eq, hafter, ih (.inl hnext) hlater]
      simp

/-- A scan starts again at a statement with a start marker. -/
theorem scanFrom_start {stmt : Stmt Action} (starts : stmt.hasBefore .spanStart = true)
    (front inside rest : List (Stmt Action)) :
    scanFrom front inside (stmt :: rest) = scanFrom (front ++ inside) [] (stmt :: rest) := by
  simp [scanFrom, starts]

/-- A scan of plain statements up to the first span. -/
theorem scan_span {front more : List (Stmt Action)} {first : Stmt Action} {behind : Bool}
    (unmarked : ∀ stmt ∈ front, stmt.Unmarked) (hfirst : first.marksBefore = [.spanStart])
    (ends : Segment.endsWith (if behind then [.spanEnd] else []) first more = true)
    (rest : List (Stmt Action)) :
    scan (front ++ first :: (more ++ rest)) =
      if behind then (.found (cutOut front (first :: more) rest), 0)
      else scanFrom front (first :: more) rest := by
  have starts : first.hasBefore .spanStart = true := by simp [Stmt.hasBefore_eq, hfirst]
  rw [scan, scanFrom_append unmarked, scanFrom_start starts,
    scanFrom_endsWith (.inr ⟨hfirst, rfl⟩) ends]
  simp

/-- An end marker above a statement ends the span in front of it. -/
theorem scanFrom_below {next : Stmt Action} (hnext : next.marksBefore = [.spanEnd])
    (front : List (Stmt Action)) (first : Stmt Action) (more rest : List (Stmt Action)) :
    scanFrom front (first :: more) (next :: rest) =
      (.found (cutOut front (first :: more) ((next.stripBefore .spanEnd).1 :: rest)), 0) := by
  simp [scanFrom, Stmt.hasBefore_eq, hnext]

/-- An end marker above the start of another span is dropped together with that
start marker: no statement stands between them. -/
theorem scanFrom_between {next : Stmt Action} (hnext : next.marksBefore = [.spanEnd, .spanStart])
    (front inside rest : List (Stmt Action)) :
    scanFrom front inside (next :: rest) =
      (.hollow (front ++ inside ++
        ((next.stripBefore .spanEnd).1.stripBefore .spanStart).1 :: rest), 0) := by
  simp [scanFrom, Stmt.hasBefore_eq, hnext]

/-- No marker is among the comments that a span leaves. -/
theorem apply_cutOut {first : Stmt Action} (hfirst : first.marksBefore = [.spanStart])
    (front more back : List (Stmt Action)) (block : Block Action) :
    ∃ moved, Marker.among moved = [] ∧
      (cutOut front (first :: more) back).apply block =
        let result := Block.addAbove moved { block with stmts := back }
        { result with stmts := front ++ result.stmts } := by
  have hdivided : first.marksBefore = [] ++ .spanStart :: [] := hfirst
  have hcarried := (Stmt.marks_detach hdivided List.not_mem_nil).1
  refine ⟨(cutOut front (first :: more) back).moved, ?_, Cut.apply_eq block _⟩
  rw [Cut.among_moved]
  exact hcarried

end Span

namespace Segment

@[simp]
theorem isRegion_mapFirst (change : Stmt Action → Stmt Action) (segment : Segment Action) :
    (segment.mapFirst change).isRegion = segment.isRegion := by
  cases segment with
  | plain stmt => rfl
  | marked shape first more behind => cases shape <;> rfl

theorem isRegion_modifyHead {segments : List (Segment Action)}
    (others : ∀ segment ∈ segments, segment.isRegion = false)
    (change : Stmt Action → Stmt Action) :
    ∀ segment ∈ segments.modifyHead (mapFirst change), segment.isRegion = false := by
  cases segments with
  | nil => exact others
  | cons first rest => simpa using others

/-- Segments are plain statements up to the first one with markers. -/
theorem exists_plains (segments : List (Segment Action)) :
    ∃ (front : List (Stmt Action)) (tail : List (Segment Action)),
      segments = front.map .plain ++ tail ∧
      (tail = [] ∨
        ∃ shape first more behind rest, tail = .marked shape first more behind :: rest) := by
  induction segments with
  | nil => exact ⟨[], [], rfl, .inl rfl⟩
  | cons segment later ih =>
      cases segment with
      | marked shape first more behind =>
          exact ⟨[], _, rfl, .inr ⟨shape, first, more, behind, later, rfl⟩⟩
      | plain stmt =>
          obtain ⟨front, tail, rfl, htail⟩ := ih
          exact ⟨stmt :: front, tail, rfl, htail⟩

theorem allStmts_plains_append (front : List (Stmt Action)) (rest : List (Segment Action)) :
    allStmts (front.map .plain ++ rest) = front ++ allStmts rest := by
  induction front with
  | nil => rfl
  | cons stmt later ih => simp [stmts, ih]

theorem plains_plains_append (front : List (Stmt Action)) (rest : List (Segment Action)) :
    plains (front.map .plain ++ rest) = front ++ plains rest := by
  simp [plains, List.filterMap_append, Function.comp_def, plain?]

end Segment

namespace Arranged

variable {last : List Marker} {kept : List (Stmt Action)} {closing : Text}
  {segments : List (Segment Action)} {block : Block Action}

/-- Taking plain statements off, and putting them back in front of other
segments. -/
theorem uncons_plains {front : List (Stmt Action)}
    (arranged : Arranged [] last kept closing (front.map .plain ++ segments) block) :
    (∀ stmt ∈ front, stmt.Unmarked) ∧ ∃ others,
      Arranged [] last others closing segments
        { block with stmts := Segment.allStmts segments } ∧
      ∀ left (result : Block Action), Arranged [] last others closing left result →
        Arranged [] last kept closing (front.map .plain ++ left)
          { result with stmts := front ++ result.stmts } := by
  induction front generalizing kept block with
  | nil =>
      have hstmts := arranged.stmts_eq
      refine ⟨List.forall_mem_nil _, kept, ?_, fun _ _ result => result⟩
      rw [← show block.stmts = Segment.allStmts segments from hstmts]
      exact arranged
  | cons stmt later ih =>
      obtain ⟨fit, others, hlater, hcons⟩ := arranged.uncons
      obtain ⟨hunmarked, left, hleft, happend⟩ := ih hlater
      have hstmt : stmt.Unmarked := Segment.fits_plain.mp fit
      refine ⟨List.forall_mem_cons.mpr ⟨hstmt, hunmarked⟩, left, hleft, ?_⟩
      intro segments result hresult
      exact hcons last _ _ (happend segments result hresult)

/-- Comments without markers change no arrangement. -/
theorem addAbove_markless (arranged : Arranged [] last kept closing segments block)
    (others : ∀ segment ∈ segments, segment.isRegion = false)
    {entries : List Text} (markless : Marker.among entries = []) :
    ∃ left, Arranged [] last kept closing left (block.addAbove entries) ∧
      left.length = segments.length ∧ ∀ segment ∈ left, segment.isRegion = false := by
  by_cases nonempty : segments = []
  · subst nonempty
    obtain rfl : [] = last := arranged.above_eq_last
    have hjoined := arranged.addAbove_nil entries
    rw [markless] at hjoined
    exact ⟨[], hjoined, rfl, others⟩
  · have hjoined := arranged.addAbove nonempty entries
    rw [markless] at hjoined
    exact ⟨_, hjoined, List.length_modifyHead, Segment.isRegion_modifyHead others _⟩

/-- Two neighbouring spans are one when the markers between them are dropped. -/
theorem merge_spans {first next : Stmt Action} {more later : List (Stmt Action)} {behind : Bool}
    {opening text : Text} {stmts : List (Stmt Action)}
    (arranged : Arranged [] last kept closing
      (.marked .span first more false :: .marked .span next later behind :: segments)
      ⟨opening, stmts, text⟩) :
    let joint := ((next.stripBefore .spanEnd).1.stripBefore .spanStart).1
    next.marksBefore = [.spanEnd, .spanStart] ∧
      Arranged [] last kept closing
        (.marked .span first (more ++ joint :: later) behind :: segments)
        ⟨opening, first :: (more ++ joint :: (later ++ Segment.allStmts segments)), text⟩ := by
  intro joint
  obtain ⟨-, hfirst, hends, hrest⟩ := arranged.uncons_marked
  obtain ⟨-, hnext, hends', hlater⟩ := hrest.uncons_marked
  have hbefore : joint.marksBefore = [] := by
    simp [joint, hnext, Shape.stop, Shape.start]
  have hafter : joint.marksAfter = next.marksAfter := by simp [joint]
  rw [← Segment.endsWith_congr hafter] at hends'
  have hmerged := Segment.endsWith_append hends hbefore hends'
  refine ⟨hnext, by simp [Segment.stmts], ?_, hlater.plains, hlater.closing_eq⟩
  exact Segment.sideBySide_cons.mpr ⟨Segment.fits_marked.mpr ⟨hfirst, hmerged⟩, hlater.sideBySide⟩

/-- What one scan does at the first span behind plain statements. A span without
an end marker is left alone; any other one is cut out, or becomes one with the
span that follows it. -/
theorem scan_span {front more : List (Stmt Action)} {first : Stmt Action} {behind : Bool}
    {opening text : Text} {stmts : List (Stmt Action)}
    (unmarked : ∀ stmt ∈ front, stmt.Unmarked)
    (arranged : Arranged [] last kept closing (.marked .span first more behind :: segments)
      ⟨opening, stmts, text⟩)
    (others : ∀ segment ∈ segments, segment.isRegion = false) :
    (segments = [] ∧ behind = false) ∨ ∃ left result,
      left.length ≤ segments.length ∧ (∀ segment ∈ left, segment.isRegion = false) ∧
      Arranged [] last kept closing left result ∧
      (Span.scan (front ++ stmts)).1.isDone = false ∧
      (Span.scan (front ++ stmts)).1.applyTo ⟨opening, front ++ stmts, text⟩ =
        { result with stmts := front ++ result.stmts } := by
  have whole := arranged
  obtain ⟨rfl, hfirst, hends, hrest⟩ := arranged.uncons_marked
  rw [Span.scan_span unmarked hfirst hends]
  cases behind with
  | true =>
      obtain ⟨moved, hmoved, happly⟩ := Span.apply_cutOut hfirst front more
        (Segment.allStmts segments) ⟨opening, front ++ first :: (more ++ _), text⟩
      obtain ⟨left, hleft, hlength, hothers⟩ := hrest.addAbove_markless others hmoved
      exact .inr ⟨left, _, Nat.le_of_eq hlength, hothers, hleft, rfl, happly⟩
  | false =>
      rw [if_neg Bool.false_ne_true]
      cases segments with
      | nil => exact .inl ⟨rfl, rfl⟩
      | cons segment rest =>
          rw [Segment.allStmts_cons]
          cases segment with
          | plain next =>
              obtain ⟨hnext, -⟩ := Segment.fits_plain.mp hrest.uncons.1
              obtain ⟨moved, hmoved, happly⟩ := Span.apply_cutOut hfirst front more
                ((next.stripBefore .spanEnd).1 :: Segment.allStmts rest)
                ⟨opening, front ++ first :: (more ++ _), text⟩
              obtain ⟨left, hleft, hlength, hothers⟩ :=
                (hrest.stripStop .span (List.cons_ne_nil _ _)).addAbove_markless
                  (Segment.isRegion_modifyHead others _) hmoved
              rw [List.length_modifyHead] at hlength
              rw [Segment.stmts, List.singleton_append, Span.scanFrom_below hnext]
              exact .inr ⟨left, _, Nat.le_of_eq hlength, hothers, hleft, rfl, happly⟩
          | marked shape next later behind =>
              obtain rfl := Segment.eq_span (others _ List.mem_cons_self)
              obtain ⟨hnext, hmerged⟩ := whole.merge_spans
              rw [Segment.stmts, List.cons_append, Span.scanFrom_between hnext]
              refine .inr ⟨_, _, by simp, ?_, hmerged, rfl, ?_⟩
              · exact List.forall_mem_cons.mpr ⟨rfl, (List.forall_mem_cons.mp others).2⟩
              · simp [Span.Scan.applyTo]

/-- A span without an end marker gives a scan nothing to act on. -/
theorem not_acts_open {first : Stmt Action} {more : List (Stmt Action)} {opening text : Text}
    {stmts : List (Stmt Action)}
    (arranged : Arranged [] last kept closing [.marked .span first more false]
      ⟨opening, stmts, text⟩) : stmts.any Span.acts = false := by
  obtain ⟨rfl, hfirst, hends, -⟩ := arranged.uncons_marked
  have hafter := Segment.marksAfter_of_endsWith hends
  simp only [Segment.allStmts_nil, List.append_nil, List.any_eq_false, Bool.not_eq_true]
  intro stmt member
  refine Span.not_acts ?_ (hafter stmt member)
  rcases List.mem_cons.mp member with rfl | later
  · rw [hfirst]
    exact List.Subset.refl _
  · rw [Segment.marksBefore_of_endsWith hends stmt later]
    exact List.nil_subset _

/-- Removing the spans leaves plain statements, and behind them at most one span
that has no end marker. -/
theorem remove_spans (arranged : Arranged [] last kept closing segments block)
    (others : ∀ segment ∈ segments, segment.isRegion = false) :
    ∃ (front : List (Stmt Action)) (tail : List (Segment Action)),
      Arranged [] last kept closing (front.map .plain ++ tail) (Span.remove block).1 ∧
      (tail = [] ∨ ∃ first more, tail = [.marked .span first more false]) := by
  induction hlength : segments.length using Nat.strongRecOn generalizing segments block with
  | ind length ih =>
      obtain ⟨front, tail, rfl, htail⟩ := Segment.exists_plains segments
      obtain ⟨hunmarked, rest, hrest, happend⟩ := arranged.uncons_plains
      have hfront : front.any Span.acts = false := by
        simp only [List.any_eq_false, Bool.not_eq_true]
        intro stmt member
        obtain ⟨hbefore, hafter⟩ := hunmarked stmt member
        exact Span.not_acts (by simp [hbefore]) hafter
      obtain ⟨opening, stmts, text⟩ := block
      obtain rfl : stmts = front ++ Segment.allStmts tail := by
        rw [← Segment.allStmts_plains_append, ← arranged.stmts_eq]
      -- Where there is nothing to act on the block is left as it is.
      have hidle (idle : (Segment.allStmts tail).any Span.acts = false) :
          (Span.remove ⟨opening, front ++ Segment.allStmts tail, text⟩).1 =
            ⟨opening, front ++ Segment.allStmts tail, text⟩ := by
        rw [Span.remove_of_not_acts]
        rw [List.any_append, hfront, idle]
        rfl
      rcases htail with rfl | ⟨shape, first, more, behind, later, rfl⟩
      · rw [hidle rfl]
        exact ⟨front, [], arranged, .inl rfl⟩
      · obtain rfl := Segment.eq_span (others _ (List.mem_append_right _ List.mem_cons_self))
        rcases hrest.scan_span hunmarked
            fun segment member => others segment (by simp [member]) with
          ⟨rfl, rfl⟩ | ⟨left, result, hless, hnone, hleft, hfound, happly⟩
        · rw [hidle hrest.not_acts_open]
          exact ⟨front, _, arranged, .inr ⟨first, more, rfl⟩⟩
        · rw [Span.remove_fst, hfound, if_neg Bool.false_ne_true, happly]
          refine ih _ ?_ (happend left result hleft) ?_ rfl
          · rw [← hlength, List.length_append, List.length_append]
            exact Nat.add_lt_add_left (Nat.lt_succ_of_le hless) _
          · simp only [List.forall_mem_append, List.forall_mem_map]
            exact ⟨fun _ _ => rfl, hnone⟩

/-- When plain statements are all that is left, no markers are left over; an open
span leaves more statements than there should be. -/
theorem plain_iff {front : List (Stmt Action)} {tail : List (Segment Action)}
    (arranged : Arranged [] last kept closing (front.map .plain ++ tail) block)
    (settled : tail = [] ∨ ∃ first more, tail = [.marked .span first more false]) :
    (List.Forall₂ Stmt.KeptAs block.stmts kept ∧ (∀ stmt ∈ block.stmts, stmt.Unmarked) ∧
      ∃ comments, block.closing = comments.flatten ++ closing ∧ Marker.among comments = []) ↔
      last = [] := by
  obtain ⟨hunmarked, others, htail, -⟩ := arranged.uncons_plains
  obtain ⟨stmts_eq, -, plains, closing_eq⟩ := arranged
  rw [Segment.allStmts_plains_append] at stmts_eq
  rw [Segment.plains_plains_append] at plains
  rcases settled with rfl | ⟨first, more, rfl⟩
  · obtain rfl : [] = last := htail.above_eq_last
    simp only [Segment.allStmts_nil, List.append_nil] at stmts_eq
    simp only [Segment.plains, List.filterMap_nil, List.append_nil] at plains
    simp only [iff_true]
    exact ⟨stmts_eq ▸ plains, stmts_eq ▸ hunmarked, closing_eq⟩
  · obtain rfl : [.spanEnd] = last := htail.uncons_marked.2.2.2.above_eq_last
    constructor
    · rintro ⟨hkept, -⟩
      have hnone : Segment.plains [Segment.marked .span first more false] = [] := rfl
      rw [hnone, List.append_nil] at plains
      have hlength := hkept.length_eq.trans plains.length_eq.symm
      simp [stmts_eq, Segment.stmts] at hlength
    · simp

end Arranged

end Removal

/-! ## Stripping the block -/

namespace Engine

/-- A block of plain statements, regions and spans side by side is stripped down
to its plain statements exactly if no end marker of a span is stranded. What is
left has no markers: not above or behind the statements, and none among the
comments that come before the closing text. -/
theorem stripBlock_sideBySide_iff (engine : Engine) (scope : Scope) (opening closing : Text)
    {segments : List (Segment Action)}
    (arranged : Segment.sideBySide [] [] segments = true) :
    let stripped := (engine.stripBlock scope ⟨opening, Segment.allStmts segments, closing⟩).1
    (List.Forall₂ Stmt.KeptAs stripped.stmts (Segment.plains segments) ∧
      (∀ stmt ∈ stripped.stmts, stmt.Unmarked) ∧
      ∃ comments, stripped.closing = comments.flatten ++ closing ∧
        Marker.among comments = []) ↔
      Segment.strands false segments = false := by
  have hblock : Arranged (Segment.pendingMarks false) [] (Segment.plains segments) closing
      segments ⟨opening, Segment.allStmts segments, closing⟩ :=
    ⟨rfl, arranged, List.forall₂_same.mpr fun stmt _ => .refl stmt, [], rfl, rfl⟩
  obtain ⟨left, hleft, others⟩ := hblock.remove_regions
  obtain ⟨front, tail, hstripped, settled⟩ := hleft.remove_spans others
  refine (hstripped.plain_iff settled).trans ?_
  cases Segment.strands false segments <;> simp [Segment.pendingMarks]

/-- A plain statement behind regions and spans with every kind of neighbour: a
region, a span and a region with their end markers below, below and behind, and
two spans of which the first has its end marker above the second. -/
def mixedSegments : List (Segment Action) :=
  let stmt (before : List String) (text : String) (after : List String) (line : Nat) :
      Stmt Action :=
    ⟨before.map String.toList, "\n\t".toList, .verbatim text.toList, [], after.map String.toList,
      line⟩
  [.marked .region (stmt ["\n\t//dd:startwrap"] "a++" [] 3) [stmt [] "b++" [] 4] false,
    .marked .span (stmt ["\n\t//dd:endwrap", "\n\t//dd:startinstrument"] "c++" [] 7) [] false,
    .marked .region (stmt ["\n\t//dd:endinstrument", "\n\t// k", "\n\t//dd:startwrap"] "d++"
      [" //dd:endwrap"] 11) [] true,
    .marked .span (stmt ["\n\t//dd:startinstrument"] "e++" [] 13) [] false,
    .marked .span (stmt ["\n\t//dd:endinstrument", "\n\t//dd:startinstrument"] "f++" [] 16)
      [stmt [] "g++" [" //dd:endinstrument"] 17] true,
    .plain (stmt [] "h++" [" // l"] 18)]

theorem stripBlock_mixedSegments :
    Segment.sideBySide [] [] mixedSegments = true ∧ Segment.strands false mixedSegments = false ∧
      let stripped := ((ofConfig .standard).stripBlock ⟨[], []⟩
        ⟨"\x7b".toList, Segment.allStmts mixedSegments, "\n\x7d".toList⟩).1
      List.Forall₂ Stmt.KeptAs stripped.stmts (Segment.plains mixedSegments) ∧
        (∀ stmt ∈ stripped.stmts, stmt.Unmarked) ∧
        ∃ comments, stripped.closing = comments.flatten ++ "\n\x7d".toList ∧
          Marker.among comments = [] := by
  have arranged : Segment.sideBySide [] [] mixedSegments = true := by decide
  have safe : Segment.strands false mixedSegments = false := by decide
  exact ⟨arranged, safe, (stripBlock_sideBySide_iff _ _ _ _ arranged).mpr safe⟩

/-- A span with its end marker below it, and a region at the end of the block. -/
def strandedSegments : List (Segment Action) :=
  [.marked .span ⟨["\n\t//dd:startinstrument".toList], "\n\t".toList, .verbatim "s++".toList,
      [], [], 3⟩ [] false,
    .marked .region ⟨["\n\t//dd:endinstrument".toList, "\n\t//dd:startwrap".toList],
      "\n\t".toList, .verbatim "b++".toList, [], [" //dd:endwrap".toList], 6⟩ [] true]

/-- There is no plain statement, but the statement of the span is left, and its
end marker stands in the closing text. -/
theorem stripBlock_strandedSegments :
    Segment.sideBySide [] [] strandedSegments = true ∧ Segment.plains strandedSegments = [] ∧
      let stripped := ((ofConfig .standard).stripBlock ⟨[], []⟩
        ⟨"\x7b".toList, Segment.allStmts strandedSegments, "\n\x7d".toList⟩).1
      stripped.stmts.map Stmt.marksBefore = [[.spanStart]] ∧
        stripped.closing = "\n\t//dd:endinstrument\n\x7d".toList := by
  refine ⟨by decide, rfl, ?_, ?_⟩
  · decide
  · decide

end Engine

end Deinstrument
