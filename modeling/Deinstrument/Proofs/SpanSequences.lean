import Deinstrument.Proofs.Notes
import Deinstrument.Proofs.SideBySide

/-!
# Sequences of plain statements and spans

Of a block of plain statements and spans the plain statements are left. Where
the end marker of a span stands above the first statement of the next one, the
two are linked: a scan takes the two markers between them for a span without
statements and drops both, and later scans see one span. So linked spans count
as one, and the comments between their markers go with them. What each scan
takes away and what it leaves is followed here from scan to scan.
-/

namespace Deinstrument

open Comment (notes above below)

variable {Action : Type}

namespace Span

/-! ## What is left -/

/-- Whether the end marker of the span in front stands above the first statement
of a span. -/
def isLinked : Segment Action → Bool
  | .plain _ => false
  | .marked _ first _ _ => first.hasBefore .spanEnd

/-- Whether a segment is a span that no other one is linked to from the front. -/
def isFree (segment : Segment Action) : Bool :=
  segment.isMarked && !isLinked segment

theorem isFree_marked {first : Stmt Action} (free : first.hasBefore .spanEnd = false)
    (shape : Shape) (more : List (Stmt Action)) (behind : Bool) :
    isFree (.marked shape first more behind) = true := by
  simp [isFree, isLinked, free, Segment.isMarked]

theorem countP_isFree_plains (stmts : List (Stmt Action)) :
    (stmts.map Segment.plain).countP isFree = 0 := by
  simp [List.countP_eq_zero, isFree, Segment.isMarked]

/-- Whether the next segment is linked to a span. -/
def linksTo (behind : Bool) (rest : List (Segment Action)) : Bool :=
  !behind && rest.head?.any Segment.isMarked

/-- The notes above the statements that are left when the spans are removed, and
those that are left behind the last of them. Linked spans leave what stands above
the start marker of the first one, and what stays behind the last one. -/
def leftOver : List (Segment Action) → List Text
  | [] => []
  | .plain stmt :: rest => notes stmt.before ++ leftOver rest
  | .marked _ first more behind :: rest =>
      (if first.hasBefore .spanEnd then [] else notes (above .spanStart first.before)) ++
        (if linksTo behind rest then []
          else notes ((first.behindLast more).filter Cut.isOwnLine)) ++
        leftOver rest

/-- The notes of a segment that stand above statements and outside of spans: those
of a plain statement, and those in front of the start marker of a span, but
behind the end marker of the one in front. -/
def outsideOf : Segment Action → List Text
  | .plain stmt => notes stmt.before
  | .marked _ first _ _ => notes (below .spanEnd (above .spanStart first.before))

/-- The notes of several segments that stand above statements and outside of
spans. -/
def outside (segments : List (Segment Action)) : List Text :=
  segments.flatMap outsideOf

/-- The notes between the markers of linked spans. -/
def between (segments : List (Segment Action)) : List Text :=
  (segments.filter isLinked).flatMap outsideOf

/-- Notes outside of spans are left over, unless they stand between linked ones. -/
theorem outside_sublist_leftOver {segments : List (Segment Action)}
    (none : between segments = []) : List.Sublist (outside segments) (leftOver segments) := by
  induction segments with
  | nil => exact .slnil
  | cons segment rest ih =>
      cases segment with
      | plain stmt => exact (List.Sublist.refl _).append (ih none)
      | marked shape first more behind =>
          have hcons : outside (.marked shape first more behind :: rest) =
              notes (below .spanEnd (above .spanStart first.before)) ++ ([] ++ outside rest) := rfl
          rw [hcons, leftOver, List.append_assoc]
          by_cases linked : first.hasBefore .spanEnd = true
          · have hlinked : isLinked (.marked shape first more behind) = true := linked
            rw [between, List.filter_cons_of_pos hlinked, List.flatMap_cons,
              List.append_eq_nil_iff] at none
            rw [show notes (below .spanEnd (above .spanStart first.before)) = [] from none.1]
            exact (List.nil_sublist _).append ((List.nil_sublist _).append (ih none.2))
          · have hfree : ¬isLinked (.marked shape first more behind) = true := linked
            rw [between, List.filter_cons_of_neg hfree] at none
            rw [if_neg linked]
            exact (Comment.notes_sublist (Comment.below_sublist _ _)).append
              ((List.nil_sublist _).append (ih none))

theorem leftOver_plains_append (front : List (Stmt Action)) (rest : List (Segment Action)) :
    leftOver (front.map .plain ++ rest) = notes (front.flatMap (·.before)) ++ leftOver rest := by
  induction front with
  | nil => rfl
  | cons stmt later ih => simp [leftOver, ih]

end Span

namespace Stmt

/-! ## Statements that a scan passes -/

/-- A statement that a scan may have passed: nothing has changed but the tags and
the blanks around its comments. -/
structure Resembles (stmt original : Stmt Action) : Prop extends SameAs stmt original where
  marksBefore : Shape.span.own stmt.marksBefore = Shape.span.own original.marksBefore
  marksAfter : Shape.span.own stmt.marksAfter = Shape.span.own original.marksAfter
  notes : Comment.notes stmt.before = Comment.notes original.before
  notesAbove : Comment.notes (above .spanStart stmt.before) =
    Comment.notes (above .spanStart original.before)
  stays : stmt.after.filter Cut.stays = original.after.filter Cut.stays

theorem Resembles.refl (stmt : Stmt Action) : Resembles stmt stmt :=
  ⟨.refl stmt, rfl, rfl, rfl, rfl, rfl⟩

end Stmt

namespace Span

/-- A statement as a scan leaves it that goes on behind it. -/
def passed (stmt : Stmt Action) : Stmt Action :=
  if stmt.hasBefore .instrumented then (stmt.strip .instrumented).1 else stmt

theorem resembles_passed (stmt : Stmt Action) : Stmt.Resembles (passed stmt) stmt := by
  have hstarts : Marker.instrumented ≠ Shape.span.start := by decide
  have hstops : Marker.instrumented ≠ Shape.span.stop := by decide
  unfold passed
  split
  · constructor
    · exact ⟨rfl, rfl, rfl⟩
    · rw [Stmt.marksBefore_strip, Shape.own_filter_ne hstarts hstops]
    · rw [Stmt.marksAfter_strip, Shape.own_filter_ne hstarts hstops]
    · exact Stmt.notes_stripBefore stmt .instrumented
    · exact Stmt.notes_above_dropEntries hstarts 0 stmt.before stmt.space
    · exact Stmt.filter_stays_stripAfter (stmt.stripBefore .instrumented).1 .instrumented
  · exact .refl stmt

/-- A scan goes on behind a statement unless a span ends at it. A start marker
makes no difference where a span has just been started. -/
theorem scanFrom_pass {inside : List (Stmt Action)} {stmt : Stmt Action}
    (above : stmt.hasBefore .spanStart = false ∨ inside = [])
    (hbefore : stmt.hasBefore .spanEnd = false) (front rest : List (Stmt Action)) :
    (scanFrom front inside (stmt :: rest)).1 =
      if stmt.hasAfter .spanEnd then .found (cutOut front (inside ++ [stmt]) rest)
      else (scanFrom front (inside ++ [passed stmt]) rest).1 := by
  have hdivided : (if stmt.hasBefore .spanStart then front ++ inside else front) = front ∧
      (if stmt.hasBefore .spanStart then [] else inside) = inside := by
    rcases above with hstart | rfl
    · simp [hstart]
    · simp
  simp only [scanFrom, hdivided, hbefore, passed]
  split
  · cases ‹false = true›
  · split
    · rfl
    · split <;> rfl

/-- A scan passes over statements without markers of spans. -/
theorem scanFrom_quiet {quiet : List (Stmt Action)}
    (unmarked : ∀ stmt ∈ quiet, Segment.isQuiet .span stmt = true)
    (front inside rest : List (Stmt Action)) :
    (scanFrom front inside (quiet ++ rest)).1 =
      (scanFrom front (inside ++ quiet.map passed) rest).1 := by
  induction quiet generalizing inside with
  | nil => simp
  | cons stmt later ih =>
      obtain ⟨hstmt, hlater⟩ := List.forall_mem_cons.mp unmarked
      obtain ⟨hbefore, hafter⟩ := Segment.isQuiet_iff.mp hstmt
      obtain ⟨hstart, hstop⟩ := Stmt.hasBefore_of_own_nil hbefore
      have hend : stmt.hasAfter .spanEnd = false := (Stmt.hasAfter_of_own_nil hafter :)
      rw [List.cons_append, scanFrom_pass (.inl hstart) hstop, if_neg (Bool.eq_false_iff.mp hend),
        ih hlater]
      simp

/-- A scan of a span ends behind its last statement, or goes on with what
follows. -/
theorem scanFrom_closesWith {inside more : List (Stmt Action)} {stmt : Stmt Action}
    {behind : Bool} (above : stmt.hasBefore .spanStart = false ∨ inside = [])
    (hbefore : stmt.hasBefore .spanEnd = false)
    (closes : Segment.closesWith .span (if behind then [.spanEnd] else []) stmt more = true)
    (front rest : List (Stmt Action)) :
    ∃ first later, List.Forall₂ Stmt.Resembles (first :: later) (stmt :: more) ∧
      (scanFrom front inside (stmt :: (more ++ rest))).1 =
        if behind then .found (cutOut front (inside ++ first :: later) rest)
        else (scanFrom front (inside ++ first :: later) rest).1 := by
  induction more generalizing stmt inside with
  | nil =>
      have hafter : stmt.hasAfter Shape.span.stop = behind := by
        rw [Stmt.hasAfter_stop, Segment.closesWith_nil.mp closes]
        cases behind <;> rfl
      have hscan := scanFrom_pass above hbefore front rest
      rw [show stmt.hasAfter .spanEnd = behind from hafter] at hscan
      cases behind with
      | true => exact ⟨stmt, [], .cons (.refl stmt) .nil, hscan⟩
      | false => exact ⟨passed stmt, [], .cons (resembles_passed stmt) .nil, hscan⟩
  | cons next later ih =>
      obtain ⟨hafter, hnext, hlater⟩ := Segment.closesWith_cons.mp closes
      have hend : stmt.hasAfter .spanEnd = false := (Stmt.hasAfter_of_own_nil hafter :)
      obtain ⟨hstart, hstop⟩ := Stmt.hasBefore_of_own_nil hnext
      obtain ⟨first, behindFirst, resembles, hscan⟩ :=
        @ih (inside ++ [passed stmt]) next (.inl hstart) hstop hlater
      refine ⟨passed stmt, first :: behindFirst, .cons (resembles_passed stmt) resembles, ?_⟩
      rw [scanFrom_pass above hbefore, if_neg (Bool.eq_false_iff.mp hend), List.cons_append, hscan]
      simp

/-- An end marker above a statement ends the span in front of it. -/
theorem scanFrom_stop {next : Stmt Action} (hstart : next.hasBefore .spanStart = false)
    (hstop : next.hasBefore .spanEnd = true) (front : List (Stmt Action)) (first : Stmt Action)
    (more rest : List (Stmt Action)) :
    (scanFrom front (first :: more) (next :: rest)).1 =
      .found (cutOut front (first :: more) ((next.stripBefore .spanEnd).1 :: rest)) := by
  simp [scanFrom, hstart, hstop]

/-- Where a statement has an end marker and a start marker above it, a scan finds
a span without statements and drops both, whatever stands in front. -/
theorem scanFrom_hollow {next : Stmt Action} (hstart : next.hasBefore .spanStart = true)
    (hstop : next.hasBefore .spanEnd = true) (front inside rest : List (Stmt Action)) :
    (scanFrom front inside (next :: rest)).1 =
      .hollow (front ++ inside ++
        ((next.stripBefore .spanEnd).1.stripBefore .spanStart).1 :: rest) := by
  simp [scanFrom, hstart, hstop]

/-! ## Cutting a span out -/

/-- Lists of statements that resemble each other end alike. -/
theorem filter_behindLast {stmts originals : List (Stmt Action)} {stmt original : Stmt Action}
    (first : Stmt.Resembles stmt original) (rest : List.Forall₂ Stmt.Resembles stmts originals) :
    (stmt.behindLast stmts).filter Cut.stays =
      (original.behindLast originals).filter Cut.stays := by
  induction rest generalizing stmt original with
  | nil => exact first.stays
  | cons next later ih => exact ih next

theorem closesWith_resembles {marks : List Marker} {stmts originals : List (Stmt Action)}
    {stmt original : Stmt Action} (first : Stmt.Resembles stmt original)
    (rest : List.Forall₂ Stmt.Resembles stmts originals) :
    Segment.closesWith .span marks stmt stmts =
      Segment.closesWith .span marks original originals := by
  induction rest generalizing stmt original with
  | nil => simp [Segment.closesWith, first.marksAfter]
  | cons next later ih =>
      simp [Segment.closesWith, first.marksAfter, next.marksBefore, ih next]

/-- What a span leaves when it is cut out: the notes above its start marker, and
those on lines of their own behind its last statement. -/
theorem notes_moved {first : Stmt Action} (starts : first.hasBefore .spanStart = true)
    (front more back : List (Stmt Action)) :
    notes (cutOut front (first :: more) back).moved = notes (above .spanStart first.before) ++
      notes ((first.behindLast more).filter Cut.isOwnLine) := by
  obtain ⟨carried, left, hdetach, -⟩ := first.detach_eq .spanStart
  have hcarried : carried = above .spanStart first.before := by
    rw [← Stmt.detach_fst starts, hdetach]
  have hafter : (first.detach .spanStart).2.after = first.after := by rw [hdetach]
  rw [cutOut, Stmt.moved_eq_behindLast, Stmt.behindLast_congr hafter, Comment.notes_append,
    Comment.notes_filter_stays, hdetach, hcarried]

/-- No span marker is among the comments that a span leaves. -/
theorem own_moved {first : Stmt Action}
    (starts : Shape.span.own first.marksBefore = [.spanStart])
    (front more back : List (Stmt Action)) :
    Shape.span.own (Marker.among (cutOut front (first :: more) back).moved) = [] := by
  rw [Cut.among_moved]
  exact (Stmt.own_detach starts).1

/-! ## Segments that are left -/

/-- What is left of segments when some of their spans have been taken away, and
comments have been put in front of the closing text. The plain statements are
the same, free spans that are missing have been counted, and the notes to be
left over are still there. -/
structure Reduces (segments : List (Segment Action)) (count : Nat)
    (left : List (Segment Action)) (added : List Text) : Prop where
  inRow : Segment.inRow .span [] left = true
  plains : List.Forall₂ Stmt.SameAs (Segment.plains left) (Segment.plains segments)
  count_eq : segments.countP isFree = left.countP isFree + count
  notes_eq : leftOver left ++ notes added = leftOver segments

namespace Reduces

instance : IsTrans (Stmt Action) Stmt.SameAs :=
  ⟨fun _ _ _ late early => late.trans early⟩

theorem refl {segments : List (Segment Action)} (inRow : Segment.inRow .span [] segments = true) :
    Reduces segments 0 segments [] :=
  ⟨inRow, List.forall₂_same.mpr fun stmt _ => .refl stmt, rfl, List.append_nil _⟩

theorem trans {segments middle left : List (Segment Action)} {count count' : Nat}
    {added added' : List Text} (early : Reduces segments count middle added)
    (late : Reduces middle count' left added') :
    Reduces segments (count + count') left (added' ++ added) := by
  refine ⟨late.inRow, forall₂_trans late.plains early.plains, ?_, ?_⟩
  · have hearly := early.count_eq
    have hlate := late.count_eq
    omega
  · rw [Comment.notes_append, ← List.append_assoc, late.notes_eq, early.notes_eq]

/-- Plain statements that a scan passes in front of what it takes away. -/
theorem front {segments left : List (Segment Action)} {count : Nat} {added : List Text}
    (reduces : Reduces segments count left added) {front : List (Stmt Action)}
    (quiet : ∀ stmt ∈ front, Segment.isQuiet .span stmt = true) :
    Reduces (front.map .plain ++ segments) count ((front.map passed).map .plain ++ left) added := by
  refine ⟨Segment.inRow_plains_append.mpr ⟨?_, reduces.inRow⟩, ?_, ?_, ?_⟩
  · rw [List.forall_mem_map]
    intro stmt member
    have hpassed := resembles_passed stmt
    rw [Segment.isQuiet_iff, hpassed.marksBefore, hpassed.marksAfter, ← Segment.isQuiet_iff]
    exact quiet stmt member
  · rw [Segment.plains_plains_append, Segment.plains_plains_append]
    refine List.rel_append ?_ reduces.plains
    rw [List.forall₂_map_left_iff]
    exact List.forall₂_same.mpr fun stmt _ => (resembles_passed stmt).toSameAs
  · rw [List.countP_append, List.countP_append, countP_isFree_plains, countP_isFree_plains,
      reduces.count_eq]
    omega
  · have hpassed : notes ((front.map passed).flatMap (·.before)) =
        notes (front.flatMap (·.before)) := by
      clear quiet
      induction front with
      | nil => rfl
      | cons stmt later ih => simp [(resembles_passed stmt).notes, ih]
    rw [leftOver_plains_append, leftOver_plains_append, hpassed, List.append_assoc,
      reduces.notes_eq]

end Reduces

/-- Comments without span markers can be put above the first segment. -/
theorem exists_addAbove {segments : List (Segment Action)}
    (inRow : Segment.inRow .span [] segments = true) {moved : List Text}
    (markless : Shape.span.own (Marker.among moved) = []) (opening closing : Text) :
    ∃ left added, left.length = segments.length ∧
      Block.addAbove moved ⟨opening, Segment.allStmts segments, closing⟩ =
        ⟨opening, Segment.allStmts left, added.flatten ++ closing⟩ ∧
      Segment.inRow .span [] left = true ∧
      List.Forall₂ Stmt.SameAs (Segment.plains left) (Segment.plains segments) ∧
      left.countP isFree = segments.countP isFree ∧
      leftOver left ++ notes added = notes moved ++ leftOver segments := by
  have hsame (stmts : List (Stmt Action)) : List.Forall₂ Stmt.SameAs stmts stmts :=
    List.forall₂_same.mpr fun stmt _ => .refl stmt
  refine ⟨_, _, List.length_modifyHead, Segment.addAbove_allStmts moved segments opening closing,
    Segment.inRow_attach markless inRow, ?_⟩
  cases segments with
  | nil => exact ⟨.nil, rfl, by simp [leftOver]⟩
  | cons segment rest =>
      cases segment with
      | plain stmt =>
          refine ⟨.cons ⟨rfl, rfl, rfl⟩ (hsame _), rfl, ?_⟩
          simp [leftOver, Segment.mapFirst]
      | marked shape first more behind =>
          obtain ⟨-, hfirst, -⟩ := Segment.inRow_marked.mp inRow
          obtain ⟨-, hattached, -⟩ :=
            Segment.inRow_marked.mp (Segment.inRow_attach markless inRow)
          have hfree : first.hasBefore .spanEnd = false :=
            (Stmt.hasBefore_of_own_start hfirst).2
          have hfree' : (first.attach moved).hasBefore .spanEnd = false :=
            (Stmt.hasBefore_of_own_start hattached).2
          have habsent : Marker.spanStart ∉ Marker.among moved :=
            (Shape.not_mem_of_own_nil markless).1
          have hafter : (first.attach moved).after = first.after := rfl
          refine ⟨hsame _, ?_, ?_⟩
          · rw [List.modifyHead_cons, Segment.mapFirst,
              List.countP_cons_of_pos (isFree_marked hfree _ _ _),
              List.countP_cons_of_pos (isFree_marked hfree' _ _ _)]
          · rw [List.modifyHead_cons, Segment.mapFirst, leftOver, leftOver, hfree, hfree',
              Stmt.behindLast_congr hafter, Stmt.notes_above_attach habsent]
            simp

/-- A span is cut out, and the comments that it leaves go to what follows. -/
theorem exists_reduces_cut {first stmt : Stmt Action} {more stmts : List (Stmt Action)}
    {shape : Shape} {behind : Bool} {segments rest : List (Segment Action)}
    (starts : Shape.span.own first.marksBefore = [.spanStart])
    (resembles : List.Forall₂ Stmt.Resembles (stmt :: stmts) (first :: more))
    (unlinked : linksTo behind segments = false) (reduces : Reduces segments 0 rest [])
    (front : List (Stmt Action)) (block : Block Action) :
    ∃ left added, left.length = rest.length ∧
      Reduces (.marked shape first more behind :: segments) 1 left added ∧
      (cutOut front (stmt :: stmts) (Segment.allStmts rest)).apply block =
        ⟨block.opening, front ++ Segment.allStmts left, added.flatten ++ block.closing⟩ := by
  obtain ⟨hfirst, hmore⟩ := List.forall₂_cons.mp resembles
  have hstarts : Shape.span.own stmt.marksBefore = [.spanStart] := hfirst.marksBefore.trans starts
  have hfree : first.hasBefore .spanEnd = false := (Stmt.hasBefore_of_own_start starts).2
  have hmoved := notes_moved (Stmt.hasBefore_of_own_start hstarts).1 front stmts
    (Segment.allStmts rest)
  rw [show notes (above .spanStart stmt.before) = _ from hfirst.notesAbove,
    ← Comment.notes_filter_stays, filter_behindLast hfirst hmore,
    Comment.notes_filter_stays] at hmoved
  obtain ⟨left, added, hlength, happly, hrow, hplains, hcount, hnotes⟩ :=
    exists_addAbove reduces.inRow (own_moved hstarts front stmts (Segment.allStmts rest))
      block.opening block.closing
  refine ⟨left, added, hlength, ⟨hrow, forall₂_trans hplains reduces.plains, ?_, ?_⟩, ?_⟩
  · rw [List.countP_cons_of_pos (isFree_marked hfree _ _ _), hcount, reduces.count_eq]
  · have hrest : leftOver rest = leftOver segments := by simpa using reduces.notes_eq
    rw [hnotes, hmoved, hrest, leftOver, hfree, unlinked]
    simp
  · rw [Cut.apply_eq]
    have hback : (cutOut front (stmt :: stmts) (Segment.allStmts rest)).back =
        Segment.allStmts rest := rfl
    have hfront : (cutOut front (stmt :: stmts) (Segment.allStmts rest)).front = front := rfl
    simp only [hback, hfront, happly]

/-- Dropping the end marker above a plain statement changes nothing else. -/
theorem reduces_stop {stmt : Stmt Action} {rest : List (Segment Action)}
    (inRow : Segment.inRow .span [.spanEnd] (.plain stmt :: rest) = true) :
    Reduces (.plain stmt :: rest) 0 (.plain (stmt.stripBefore .spanEnd).1 :: rest) [] := by
  refine ⟨Segment.inRow_stripStop inRow, ?_, rfl, ?_⟩
  · exact .cons ⟨rfl, rfl, rfl⟩ (List.forall₂_same.mpr fun other _ => .refl other)
  · simp [leftOver]

/-- Linked spans become one span when the markers between them are dropped. -/
theorem reduces_link {first stmt next : Stmt Action} {more stmts later : List (Stmt Action)}
    {behind : Bool} {segments : List (Segment Action)}
    (inRow : Segment.inRow .span []
      (.marked .span first more false :: .marked .span next later behind :: segments) = true)
    (resembles : List.Forall₂ Stmt.Resembles (stmt :: stmts) (first :: more)) :
    let joint := ((next.stripBefore .spanEnd).1.stripBefore .spanStart).1
    Reduces (.marked .span first more false :: .marked .span next later behind :: segments) 0
      (.marked .span stmt (stmts ++ joint :: later) behind :: segments) [] := by
  intro joint
  obtain ⟨hfirst, hmore⟩ := List.forall₂_cons.mp resembles
  obtain ⟨-, starts, hcloses, hrest⟩ := Segment.inRow_marked.mp inRow
  obtain ⟨-, hnext, hcloses', hsegments⟩ := Segment.inRow_marked.mp hrest
  have hstarts : Shape.span.own stmt.marksBefore = [.spanStart] := hfirst.marksBefore.trans starts
  have hfree : first.hasBefore .spanEnd = false := (Stmt.hasBefore_of_own_start starts).2
  have hfree' : stmt.hasBefore .spanEnd = false := (Stmt.hasBefore_of_own_start hstarts).2
  have hlinked : next.hasBefore Shape.span.stop = true := by
    simp [Stmt.hasBefore_stop, hnext]
  have hjoint : Shape.span.own joint.marksBefore = [] := by
    simp only [joint, Stmt.marksBefore_stripBefore, Shape.own_filter, hnext]
    decide
  have hafter : joint.after = next.after := rfl
  refine ⟨Segment.inRow_marked.mpr ⟨rfl, hstarts, ?_, hsegments⟩,
    List.forall₂_same.mpr fun other _ => .refl other, ?_, ?_⟩
  · rw [← closesWith_resembles hfirst hmore] at hcloses
    exact Segment.closesWith_append hcloses hjoint
      ((Segment.closesWith_congr hafter).trans hcloses')
  · have hnone : ¬isFree (.marked .span next later behind) = true := by
      simp [isFree, isLinked, show next.hasBefore .spanEnd = true from hlinked]
    rw [List.countP_cons_of_pos (isFree_marked hfree _ _ _), List.countP_cons_of_neg hnone,
      List.countP_cons_of_pos (isFree_marked hfree' _ _ _)]
  · have hlinks : linksTo false (.marked .span next later behind :: segments) = true := rfl
    rw [leftOver, leftOver, leftOver, hfree, hfree', hlinks,
      show next.hasBefore .spanEnd = true from hlinked, Stmt.behindLast_append,
      Stmt.behindLast_congr hafter,
      show notes (above .spanStart stmt.before) = _ from hfirst.notesAbove]
    simp

/-! ## All scans -/

/-- The number of spans that a scan cuts out. -/
def Scan.spanCount : Scan Action → Nat
  | .found _ => 1
  | _ => 0

/-- A scan of plain statements and a span ends behind the span, or goes on with what
follows it. -/
theorem scan_marked {front more : List (Stmt Action)} {first : Stmt Action} {behind : Bool}
    (quiet : ∀ stmt ∈ front, Segment.isQuiet .span stmt = true)
    (starts : Shape.span.own first.marksBefore = [.spanStart])
    (closes : Segment.closesWith .span (if behind then [.spanEnd] else []) first more = true)
    (rest : List (Segment Action)) :
    ∃ stmt later, List.Forall₂ Stmt.Resembles (stmt :: later) (first :: more) ∧
      (scan (front ++ Segment.allStmts (.marked .span first more behind :: rest))).1 =
        if behind then .found (cutOut (front.map passed) (stmt :: later) (Segment.allStmts rest))
        else (scanFrom (front.map passed) (stmt :: later) (Segment.allStmts rest)).1 := by
  obtain ⟨hstart, hstop⟩ := Stmt.hasBefore_of_own_start starts
  obtain ⟨stmt, later, resembles, hspan⟩ :=
    scanFrom_closesWith (.inr rfl) hstop closes (front.map passed) (Segment.allStmts rest)
  refine ⟨stmt, later, resembles, ?_⟩
  rw [Segment.allStmts_cons, Segment.stmts, List.cons_append, scan, scanFrom_quiet quiet,
    scanFrom_start hstart]
  exact hspan

/-- What one scan does at the first span behind plain statements: the span is cut
out, or becomes one with the span that is linked to it. -/
theorem exists_reduces_scan {front more : List (Stmt Action)} {first : Stmt Action}
    {behind : Bool} {rest : List (Segment Action)}
    (quiet : ∀ stmt ∈ front, Segment.isQuiet .span stmt = true)
    (inRow : Segment.inRow .span [] (.marked .span first more behind :: rest) = true)
    (opening closing : Text) :
    let stmts := front ++ Segment.allStmts (.marked .span first more behind :: rest)
    ∃ left added, left.length ≤ rest.length ∧ (scan stmts).1.isDone = false ∧
      Reduces (.marked .span first more behind :: rest) (scan stmts).1.spanCount left added ∧
      (scan stmts).1.applyTo ⟨opening, stmts, closing⟩ =
        ⟨opening, front.map passed ++ Segment.allStmts left, added.flatten ++ closing⟩ := by
  intro stmts
  obtain ⟨-, starts, hcloses, hrest⟩ := Segment.inRow_marked.mp inRow
  obtain ⟨stmt, later, resembles, hscan⟩ := scan_marked quiet starts hcloses rest
  rw [hscan]
  cases behind with
  | true =>
      have hunlinked : linksTo true rest = false := rfl
      obtain ⟨left, added, hlength, reduces, happly⟩ :=
        exists_reduces_cut starts resembles hunlinked (.refl hrest) (front.map passed)
          ⟨opening, stmts, closing⟩
      exact ⟨left, added, hlength.le, rfl, reduces, happly⟩
  | false =>
      cases rest with
      | nil => cases hrest
      | cons segment segments =>
          rw [if_neg Bool.false_ne_true, Segment.allStmts_cons]
          cases segment with
          | plain next =>
              obtain ⟨hnext, -, -⟩ := Segment.inRow_plain.mp hrest
              obtain ⟨hopen, hends⟩ := Stmt.hasBefore_of_own_stop hnext
              have hunlinked : linksTo false (.plain next :: segments) = false := rfl
              obtain ⟨left, added, hlength, reduces, happly⟩ :=
                exists_reduces_cut starts resembles hunlinked (reduces_stop hrest)
                  (front.map passed) ⟨opening, stmts, closing⟩
              rw [Segment.stmts, List.singleton_append, scanFrom_stop hopen hends]
              exact ⟨left, added, hlength.le, rfl, reduces, happly⟩
          | marked shape next more' behind =>
              obtain ⟨rfl, hnext, -⟩ := Segment.inRow_marked.mp hrest
              have hends : next.hasBefore Shape.span.stop = true := by
                simp [Stmt.hasBefore_stop, hnext]
              have hstarts : next.hasBefore Shape.span.start = true := by
                simp [Stmt.hasBefore_start, hnext]
              rw [Segment.stmts, List.cons_append, scanFrom_hollow hstarts hends]
              refine ⟨_, [], ?_, rfl, reduces_link inRow resembles, ?_⟩
              · simp
              · simp [Scan.applyTo, Segment.stmts]

/-- The spans that a removal counts are those that its scans cut out. -/
theorem spans_remove (block : Block Action) :
    (remove block).2.spans = (scan block.stmts).1.spanCount +
      if (scan block.stmts).1.isDone then 0
      else (remove ((scan block.stmts).1.applyTo block)).2.spans := by
  have hless : (scan block.stmts).1.isDone = false →
      ends ((scan block.stmts).1.applyTo block).stmts < ends block.stmts :=
    ends_applyTo_lt block [] [] block.stmts
  have later (next : Block Action) (hfewer : ends next.stmts < ends block.stmts) :
      removeUpTo (ends block.stmts) next = remove next := by
    rw [remove, endCount_eq]
    exact removeUpTo_congr hfewer (Nat.lt_succ_self _)
  conv => lhs; rw [remove, endCount_eq, removeUpTo]
  cases hscan : scan block.stmts with
  | mk found tags =>
      rw [hscan] at hless
      cases found with
      | done stmts => rfl
      | hollow stmts =>
          simp only [later { block with stmts := stmts } (hless rfl)]
          exact (Nat.zero_add _).symm
      | found cut =>
          simp only [later (cut.apply block) (hless rfl)]
          exact Nat.add_comm _ _

/-- A scan of plain statements finds nothing. -/
theorem scan_quiet {front : List (Stmt Action)}
    (quiet : ∀ stmt ∈ front, Segment.isQuiet .span stmt = true) :
    (scan front).1 = .done (front.map passed) := by
  have hscan := scanFrom_quiet quiet [] [] []
  rw [List.append_nil] at hscan
  exact hscan

/-- All scans together leave the plain statements, and count the free spans. -/
theorem exists_reduces_remove {segments : List (Segment Action)}
    (inRow : Segment.inRow .span [] segments = true) (block : Block Action)
    (stmts_eq : block.stmts = Segment.allStmts segments) :
    ∃ added, Reduces segments (remove block).2.spans ((remove block).1.stmts.map .plain) added ∧
      (remove block).1.closing = added.flatten ++ block.closing := by
  -- Each scan leaves fewer segments.
  induction hlength : segments.length using Nat.strongRecOn generalizing segments block with
  | ind length ih =>
      obtain ⟨front, tail, rfl, htail⟩ := Segment.exists_plains segments
      obtain ⟨quiet, hrow⟩ := Segment.inRow_plains_append.mp inRow
      obtain ⟨opening, stmts, closing⟩ := block
      obtain rfl : stmts = front ++ Segment.allStmts tail := by
        rw [← Segment.allStmts_plains_append, ← stmts_eq]
      rcases htail with rfl | ⟨shape, first, more, behind, rest, rfl⟩
      · rw [Segment.allStmts_nil, List.append_nil, List.append_nil, spans_remove, remove_fst,
          scan_quiet quiet]
        have reduces := (Reduces.refl (show Segment.inRow .span [] [] = true from rfl)).front quiet
        rw [List.append_nil, List.append_nil] at reduces
        exact ⟨[], reduces, rfl⟩
      · obtain ⟨rfl, -⟩ := Segment.inRow_marked.mp hrow
        obtain ⟨left, added, hless, hfound, reduces, happly⟩ :=
          exists_reduces_scan quiet hrow opening closing
        have hfront := reduces.front quiet
        have hfewer : ((front.map passed).map Segment.plain ++ left).length < length := by
          simp only [← hlength, List.length_append, List.length_map, List.length_cons]
          omega
        obtain ⟨later, hlater, hclosing⟩ := ih _ hfewer hfront.inRow
          ⟨opening, front.map passed ++ Segment.allStmts left, added.flatten ++ closing⟩
          (Segment.allStmts_plains_append (front.map passed) left).symm rfl
        rw [spans_remove, remove_fst, hfound, if_neg Bool.false_ne_true,
          if_neg Bool.false_ne_true, happly]
        refine ⟨later ++ added, hfront.trans hlater, ?_⟩
        rw [hclosing, List.flatten_append, List.append_assoc]

/-! ## What the removal leaves, and what it counts -/

/-- Removing the spans of a block leaves exactly its plain statements, in order,
and no marker of a span above or behind them. -/
theorem remove_stmts_inRow (opening closing : Text) {segments : List (Segment Action)}
    (inRow : Segment.inRow .span [] segments = true) :
    let removed := (remove ⟨opening, Segment.allStmts segments, closing⟩).1
    List.Forall₂ Stmt.SameAs removed.stmts (Segment.plains segments) ∧
      ∀ stmt ∈ removed.stmts, ∀ marker ∈ [Marker.spanStart, Marker.spanEnd],
        stmt.hasBefore marker = false ∧ stmt.hasAfter marker = false := by
  intro removed
  obtain ⟨added, reduces, -⟩ :=
    exists_reduces_remove inRow ⟨opening, Segment.allStmts segments, closing⟩ rfl
  constructor
  · have hplains := reduces.plains
    rw [← List.append_nil (List.map _ _), Segment.plains_plains_append] at hplains
    simpa [Segment.plains] using hplains
  · intro stmt member marker hmarker
    have hrow := reduces.inRow
    rw [← List.append_nil (List.map _ _), Segment.inRow_plains_append] at hrow
    obtain ⟨hbefore, hafter⟩ := Segment.isQuiet_iff.mp (hrow.1 stmt member)
    have habsent (marks : List Marker) (none : Shape.span.own marks = []) : marker ∉ marks := by
      simp only [List.mem_cons, List.not_mem_nil, or_false] at hmarker
      rcases hmarker with rfl | rfl
      · exact (Shape.not_mem_of_own_nil none).1
      · exact (Shape.not_mem_of_own_nil none).2
    rw [Stmt.hasBefore_eq, Stmt.hasAfter_eq, decide_eq_false_iff_not, decide_eq_false_iff_not]
    exact ⟨habsent _ hbefore, habsent _ hafter⟩

/-- Plain statements and spans in every combination: a span that is linked to the
one behind it, a span with its end marker above a plain statement, and one at the
end of the block. A tag stands inside of a span, and the start of a region above
a plain statement. -/
def chainedSegments : List (Segment Text) :=
  let stmt (before : List String) (text : String) := Stmt.ofStrings before text.toList
  [.plain (stmt ["\n\t// one", "\n\t//dd:startwrap"] "a++" [] 4),
    .marked .span (stmt ["\n\t// two", "\n\t//dd:startinstrument"] "b++" [] 7)
      [stmt ["\n\t//dd:instrumented"] "c++" [] 9] false,
    .marked .span (stmt ["\n\t//dd:endinstrument", "\n\t//dd:startinstrument"] "d++"
      [" //dd:endinstrument", "\n\t// three"] 12) [] true,
    .marked .span (stmt ["\n\t//dd:startinstrument"] "e++" [] 15) [] false,
    .plain (stmt ["\n\t//dd:endinstrument", "\n\t// four"] "f++" [] 18),
    .marked .span (stmt ["\n\t// five", "\n\t//dd:startinstrument"] "g++"
      [" //dd:endinstrument"] 21) [] true]

theorem remove_stmts_chainedSegments :
    Segment.inRow .span [] chainedSegments = true ∧
      let removed := (remove ⟨"\x7b".toList, Segment.allStmts chainedSegments, "\n\x7d".toList⟩).1
      List.Forall₂ Stmt.SameAs removed.stmts (Segment.plains chainedSegments) ∧
        ∀ stmt ∈ removed.stmts, ∀ marker ∈ [Marker.spanStart, Marker.spanEnd],
          stmt.hasBefore marker = false ∧ stmt.hasAfter marker = false := by
  have inRow : Segment.inRow .span [] chainedSegments = true := by decide
  exact ⟨inRow, remove_stmts_inRow _ _ inRow⟩

/-- The notes that removing the spans of a block leaves above its statements and in
front of its closing text. If no notes stand between the markers of linked spans,
all notes above statements and outside of spans are among them, in order. -/
theorem remove_notes_inRow (opening closing : Text) {segments : List (Segment Action)}
    (inRow : Segment.inRow .span [] segments = true) :
    let removed := (remove ⟨opening, Segment.allStmts segments, closing⟩).1
    ∃ added, removed.closing = added.flatten ++ closing ∧
      notes (removed.stmts.flatMap (·.before) ++ added) = leftOver segments ∧
      (between segments = [] → List.Sublist (outside segments)
        (notes (removed.stmts.flatMap (·.before) ++ added))) := by
  intro removed
  obtain ⟨added, reduces, hclosing⟩ :=
    exists_reduces_remove inRow ⟨opening, Segment.allStmts segments, closing⟩ rfl
  have hnotes : notes (removed.stmts.flatMap (·.before) ++ added) = leftOver segments := by
    have hleft := leftOver_plains_append removed.stmts []
    rw [List.append_nil, leftOver, List.append_nil] at hleft
    rw [Comment.notes_append, ← hleft]
    exact reduces.notes_eq
  refine ⟨added, hclosing, hnotes, ?_⟩
  intro none
  rw [hnotes]
  exact outside_sublist_leftOver none

theorem remove_notes_chainedSegments :
    Segment.inRow .span [] chainedSegments = true ∧ between chainedSegments = [] ∧
      let removed := (remove ⟨"\x7b".toList, Segment.allStmts chainedSegments, "\n\x7d".toList⟩).1
      ∃ added, removed.closing = added.flatten ++ "\n\x7d".toList ∧
        List.Sublist
          ["// one".toList, "// two".toList, "// four".toList, "// five".toList]
          (notes (removed.stmts.flatMap (·.before) ++ added)) := by
  have inRow : Segment.inRow .span [] chainedSegments = true := by decide
  have none : between chainedSegments = [] := by decide
  have houtside : outside chainedSegments =
      ["// one".toList, "// two".toList, "// four".toList, "// five".toList] := by decide
  obtain ⟨added, hclosing, -, survive⟩ := remove_notes_inRow _ _ inRow
  exact ⟨inRow, none, added, hclosing, houtside ▸ survive none⟩

/-- Two linked spans with comments between the markers of the first and those of the
second. -/
def linkedSegments : List (Segment Text) :=
  let stmt (before : List String) (text : String) := Stmt.ofStrings before text.toList
  [.marked .span (stmt ["\n\t//dd:startinstrument"] "a++" [] 3) [] false,
    .marked .span (stmt ["\n\t//dd:endinstrument", "\n\t// one", "\n\t// two", "\n\t// three",
      "\n\t//dd:startinstrument"] "b++" [" //dd:endinstrument"] 9) [] true,
    .plain (stmt [] "c++" [] 10)]

/-- The comments between linked spans are gone, from the statements and from the
closing text. -/
theorem remove_notes_linkedSegments :
    Segment.inRow .span [] linkedSegments = true ∧
      outside linkedSegments = ["// one".toList, "// two".toList, "// three".toList] ∧
      let removed := (remove ⟨"\x7b".toList, Segment.allStmts linkedSegments, "\n\x7d".toList⟩).1
      removed.stmts.flatMap (·.before) = [] ∧ removed.closing = "\n\x7d".toList := by
  refine ⟨?_, ?_, ?_, ?_⟩ <;> decide

/-- Among marked segments are free spans and linked ones. -/
theorem countP_isMarked (segments : List (Segment Action)) :
    segments.countP Segment.isMarked = segments.countP isFree + segments.countP isLinked := by
  induction segments with
  | nil => rfl
  | cons segment rest ih =>
      rw [List.countP_cons, List.countP_cons, List.countP_cons, ih]
      cases segment with
      | plain stmt => rfl
      | marked shape first more behind =>
          cases hlinked : first.hasBefore .spanEnd <;>
            simp [isFree, isLinked, Segment.isMarked, hlinked] <;> omega

/-- Removing the spans of a block counts linked spans as one. So the count is the
number of spans exactly if there are no linked ones. -/
theorem remove_spans_inRow (opening closing : Text) {segments : List (Segment Action)}
    (inRow : Segment.inRow .span [] segments = true) :
    let counted := (remove ⟨opening, Segment.allStmts segments, closing⟩).2.spans
    counted = segments.countP isFree ∧
      (counted = segments.countP Segment.isMarked ↔
        ∀ segment ∈ segments, isLinked segment = false) := by
  intro counted
  obtain ⟨added, reduces, -⟩ :=
    exists_reduces_remove inRow ⟨opening, Segment.allStmts segments, closing⟩ rfl
  have hcounted : counted = segments.countP isFree := by
    rw [reduces.count_eq, countP_isFree_plains, Nat.zero_add]
  constructor
  · exact hcounted
  · rw [hcounted, countP_isMarked, Nat.left_eq_add, List.countP_eq_zero]
    simp only [Bool.not_eq_true]

theorem remove_spans_chainedSegments :
    Segment.inRow .span [] chainedSegments = true ∧
      let counted := (remove
        ⟨"\x7b".toList, Segment.allStmts chainedSegments, "\n\x7d".toList⟩).2.spans
      counted = 3 ∧ counted ≠ chainedSegments.countP Segment.isMarked := by
  have inRow : Segment.inRow .span [] chainedSegments = true := by decide
  obtain ⟨hcounted, hall⟩ := remove_spans_inRow "\x7b".toList "\n\x7d".toList inRow
  refine ⟨inRow, hcounted, ?_⟩
  rw [Ne, hall]
  decide

/-- Two spans are counted as one. -/
theorem remove_spans_linkedSegments :
    Segment.inRow .span [] linkedSegments = true ∧
      linkedSegments.countP Segment.isMarked = 2 ∧
      (remove ⟨"\x7b".toList, Segment.allStmts linkedSegments, "\n\x7d".toList⟩).2.spans = 1 := by
  refine ⟨?_, ?_, ?_⟩ <;> decide

end Span

end Deinstrument
