import Deinstrument.Proofs.Arrangement
import Mathlib.Data.List.DropRight

/-!
# Comments that are no markers

Removing segments drops markers and moves the comments among which they stand.
What a reader wants to see again is the text of the other comments, here called
notes. This module says what happens to the notes of a statement, and to the
markers of one shape on it, when markers are dropped and comments are taken off
or put back. Markers of the other shape, and tags, may stand anywhere.
-/

namespace Deinstrument

variable {Action : Type}

namespace Comment

/-- The text of a comment that is no marker. -/
def note? (entry : Text) : Option Text :=
  if (Marker.classify entry).isNone then some (body entry) else none

/-- The texts of those comments among several that are no markers. -/
def notes (entries : List Text) : List Text :=
  entries.filterMap note?

/-- The comments in front of the first marker of a kind. -/
def above (marker : Marker) (entries : List Text) : List Text :=
  entries.takeWhile fun entry => Marker.classify entry ≠ some marker

/-- The comments behind the last marker of a kind. -/
def below (marker : Marker) (entries : List Text) : List Text :=
  entries.rtakeWhile fun entry => Marker.classify entry ≠ some marker

@[simp]
theorem notes_nil : notes [] = [] := rfl

@[simp]
theorem notes_append (front back : List Text) : notes (front ++ back) = notes front ++ notes back :=
  List.filterMap_append

theorem notes_cons_marker {entry : Text} {marker : Marker}
    (kind : Marker.classify entry = some marker) (rest : List Text) :
    notes (entry :: rest) = notes rest := by
  simp [notes, note?, kind]

@[simp]
theorem note?_carry (blank : Nat) (entry : Text) :
    note? (Stmt.carry blank entry) = note? entry := by
  simp [note?]

theorem notes_sublist {entries others : List Text} (sublist : List.Sublist entries others) :
    List.Sublist (notes entries) (notes others) :=
  sublist.filterMap note?

theorem below_sublist (marker : Marker) (entries : List Text) :
    List.Sublist (below marker entries) entries :=
  (List.rtakeWhile_suffix _ entries).sublist

/-- The comments behind the last marker of a kind follow it. -/
theorem exists_eq_below {marker : Marker} {entries : List Text}
    (present : marker ∈ Marker.among entries) :
    ∃ front entry, entries = front ++ entry :: below marker entries ∧
      Marker.classify entry = some marker := by
  induction entries using List.reverseRecOn with
  | nil => cases present
  | append_singleton front last ih =>
      by_cases hkind : Marker.classify last = some marker
      · refine ⟨front, last, ?_, hkind⟩
        rw [below, List.rtakeWhile_concat_neg _ _ _ (by simpa using hkind)]
      · have hbelow : below marker (front ++ [last]) = below marker front ++ [last] :=
          List.rtakeWhile_concat_pos _ _ _ (by simpa using hkind)
        rw [Marker.among_append, List.mem_append] at present
        have hfront : marker ∈ Marker.among front := by
          refine present.resolve_right ?_
          simpa [Marker.among] using hkind
        obtain ⟨before, entry, hentries, hentry⟩ := ih hfront
        refine ⟨before, entry, ?_, hentry⟩
        rw [hbelow, ← List.cons_append, ← List.append_assoc, ← hentries]

/-- Comments without a marker of the kind belong to those in front of it. -/
theorem above_append {marker : Marker} {front : List Text}
    (absent : marker ∉ Marker.among front) (back : List Text) :
    above marker (front ++ back) = front ++ above marker back := by
  refine List.takeWhile_append_of_pos fun entry member => ?_
  simp only [decide_eq_true_eq]
  exact fun kind => absent (List.mem_filterMap.mpr ⟨entry, member, kind⟩)

/-- What stays of the comments behind a statement are notes on lines of their own. -/
theorem notes_filter_stays (entries : List Text) :
    notes (entries.filter Cut.stays) = notes (entries.filter Cut.isOwnLine) := by
  rw [notes, notes, List.filterMap_filter, List.filterMap_filter]
  congr 1
  funext entry
  cases hkind : Marker.classify entry <;> simp [Cut.stays, note?, hkind]

end Comment

open Comment (notes above below)

namespace Stmt

/-! ## Dropping markers -/

/-- Dropping the markers of a kind drops no notes. -/
theorem notes_dropEntries (marker : Marker) (blank : Nat) (entries : List Text) (space : Text) :
    notes (dropEntries marker.isOn blank entries space).1 = notes entries := by
  induction entries generalizing blank with
  | nil => rfl
  | cons first rest ih =>
      by_cases hdrops : marker.isOn (Comment.body first) = true
      · rw [dropEntries_cons_drop hdrops,
          Comment.notes_cons_marker (Marker.classify_eq_some_iff.mpr hdrops)]
        exact ih _
      · have later := ih 0
        rw [dropEntries_cons_keep hdrops]
        simp only [notes, List.filterMap_cons, Comment.note?_carry] at later ⊢
        rw [later]

/-- Dropping the markers of one kind drops no notes in front of another kind. -/
theorem notes_above_dropEntries {marker other : Marker} (different : marker ≠ other) (blank : Nat)
    (entries : List Text) (space : Text) :
    notes (above other (dropEntries marker.isOn blank entries space).1) =
      notes (above other entries) := by
  induction entries generalizing blank with
  | nil => rfl
  | cons first rest ih =>
      by_cases hdrops : marker.isOn (Comment.body first) = true
      · have hkind := Marker.classify_eq_some_iff.mpr hdrops
        have hfirst : above other (first :: rest) = first :: above other rest := by
          simp [above, hkind, different]
        rw [dropEntries_cons_drop hdrops, hfirst, Comment.notes_cons_marker hkind]
        exact ih _
      · have later := ih 0
        rw [dropEntries_cons_keep hdrops]
        simp only [above, List.takeWhile_cons, Marker.classify_carry] at later ⊢
        split
        · simp only [notes, List.filterMap_cons, Comment.note?_carry] at later ⊢
          rw [later]
        · rfl

@[simp]
theorem notes_stripBefore (stmt : Stmt Action) (marker : Marker) :
    notes (stmt.stripBefore marker).1.before = notes stmt.before :=
  notes_dropEntries marker 0 stmt.before stmt.space

/-- No marker is among the comments that stay behind a statement. -/
theorem filter_stays_stripAfter (stmt : Stmt Action) (marker : Marker) :
    (stmt.stripAfter marker).1.after.filter Cut.stays = stmt.after.filter Cut.stays := by
  simp only [stripAfter, dropAfter, List.filter_filter]
  refine List.filter_congr fun entry _ => ?_
  cases hon : marker.isOn (Comment.body entry) with
  | false => simp
  | true => simp [Cut.stays, Marker.classify_eq_some_iff.mpr hon]

/-! ## Taking comments off and putting them back -/

/-- What is taken off a statement is what stands in front of the marker. -/
theorem detach_fst {stmt : Stmt Action} {marker : Marker} (present : stmt.hasBefore marker = true) :
    (stmt.detach marker).1 = above marker stmt.before := by
  obtain ⟨carried, entry, left, hbefore, hcarried, hentry⟩ := before_eq_of_hasBefore present
  rw [detach_of_before_eq hbefore hcarried hentry, hbefore, Comment.above_append hcarried]
  simp [above, hentry]

@[simp]
theorem notes_attach (entries : List Text) (stmt : Stmt Action) :
    notes (stmt.attach entries).before = notes entries ++ notes stmt.before :=
  Comment.notes_append entries stmt.before

/-- A statement on a line of its own, with comments above it and behind it. -/
def ofStrings (before : List String) (action : Action) (after : List String) (line : Nat) :
    Stmt Action :=
  ⟨before.map String.toList, "\n\t".toList, action, [], after.map String.toList, line⟩

/-- The comments behind the last of several statements. -/
def behindLast (first : Stmt Action) : List (Stmt Action) → List Text
  | [] => first.after
  | next :: later => behindLast next later

theorem behindLast_congr {first other : Stmt Action} (same : first.after = other.after)
    (more : List (Stmt Action)) : behindLast first more = behindLast other more := by
  cases more with
  | nil => exact same
  | cons next later => rfl

theorem exists_behindLast (first : Stmt Action) (more : List (Stmt Action)) :
    ∃ last ∈ first :: more, first.behindLast more = last.after := by
  induction more generalizing first with
  | nil => exact ⟨first, List.mem_cons_self, rfl⟩
  | cons next later ih =>
      obtain ⟨last, member, hlast⟩ := ih next
      exact ⟨last, List.mem_cons_of_mem first member, hlast⟩

theorem behindLast_append (first next : Stmt Action) (more later : List (Stmt Action)) :
    behindLast first (more ++ next :: later) = behindLast next later := by
  induction more generalizing first with
  | nil => rfl
  | cons second rest ih => exact ih second

/-- The comments that a cut moves are those taken off its first statement, and
those that stay behind its last one. -/
theorem moved_eq_behindLast (front more back : List (Stmt Action)) (first : Stmt Action)
    (carried : List Text) :
    (Cut.mk front (first :: more) carried back).moved =
      carried ++ (behindLast first more).filter Cut.stays := by
  have hlast : ((first :: more).getLast?).map (·.after) = some (behindLast first more) := by
    induction more generalizing first with
    | nil => rfl
    | cons next later ih => rw [List.getLast?_cons_cons, ih, behindLast]
  obtain ⟨last, hfound, hafter⟩ := Option.map_eq_some_iff.mp hlast
  simp only [Cut.moved, hfound, ← hafter]

theorem notes_above_attach {marker : Marker} {entries : List Text}
    (absent : marker ∉ Marker.among entries) (stmt : Stmt Action) :
    notes (above marker (stmt.attach entries).before) =
      notes entries ++ notes (above marker stmt.before) := by
  rw [attach, Comment.above_append absent, Comment.notes_append]

end Stmt

/-! ## Markers of one shape -/

namespace Shape

/-- The markers of a shape among several ones. -/
def own (shape : Shape) (marks : List Marker) : List Marker :=
  marks.filter fun marker => marker = shape.start || marker = shape.stop

@[simp]
theorem own_append (shape : Shape) (front back : List Marker) :
    shape.own (front ++ back) = shape.own front ++ shape.own back :=
  List.filter_append front back

theorem start_mem_own {shape : Shape} {marks : List Marker} :
    shape.start ∈ shape.own marks ↔ shape.start ∈ marks := by
  simp [own]

theorem stop_mem_own {shape : Shape} {marks : List Marker} :
    shape.stop ∈ shape.own marks ↔ shape.stop ∈ marks := by
  simp [own]

theorem not_mem_of_own_nil {shape : Shape} {marks : List Marker} (none : shape.own marks = []) :
    shape.start ∉ marks ∧ shape.stop ∉ marks := by
  rw [← start_mem_own, ← stop_mem_own, none]
  exact ⟨List.not_mem_nil, List.not_mem_nil⟩

theorem own_filter (shape : Shape) (keeps : Marker → Bool) (marks : List Marker) :
    shape.own (marks.filter keeps) = (shape.own marks).filter keeps :=
  List.filter_comm _ keeps marks

/-- Dropping a marker that is not of a shape drops none that is. -/
theorem own_filter_ne {shape : Shape} {other : Marker} (starts : other ≠ shape.start)
    (stops : other ≠ shape.stop) (marks : List Marker) :
    shape.own (marks.filter (· ≠ other)) = shape.own marks := by
  rw [own_filter, List.filter_eq_self]
  intro marker member
  have hmarker := (List.mem_filter.mp member).2
  simp only [Bool.or_eq_true, decide_eq_true_eq] at hmarker ⊢
  rcases hmarker with rfl | rfl
  · exact starts.symm
  · exact stops.symm

end Shape

namespace Stmt

variable {shape : Shape} {stmt : Stmt Action}

theorem hasBefore_start : stmt.hasBefore shape.start =
    decide (shape.start ∈ shape.own stmt.marksBefore) := by
  rw [hasBefore_eq, decide_eq_decide, Shape.start_mem_own]

theorem hasBefore_stop : stmt.hasBefore shape.stop =
    decide (shape.stop ∈ shape.own stmt.marksBefore) := by
  rw [hasBefore_eq, decide_eq_decide, Shape.stop_mem_own]

theorem hasAfter_stop : stmt.hasAfter shape.stop =
    decide (shape.stop ∈ shape.own stmt.marksAfter) := by
  rw [hasAfter_eq, decide_eq_decide, Shape.stop_mem_own]

theorem hasBefore_of_own_nil (none : shape.own stmt.marksBefore = []) :
    stmt.hasBefore shape.start = false ∧ stmt.hasBefore shape.stop = false := by
  simp [hasBefore_start, hasBefore_stop, none]

theorem hasAfter_of_own_nil (none : shape.own stmt.marksAfter = []) :
    stmt.hasAfter shape.stop = false := by
  simp [hasAfter_stop, none]

theorem hasBefore_of_own_start (only : shape.own stmt.marksBefore = [shape.start]) :
    stmt.hasBefore shape.start = true ∧ stmt.hasBefore shape.stop = false := by
  have hdifferent : shape.stop ≠ shape.start := by cases shape <;> decide
  simp [hasBefore_start, hasBefore_stop, only, hdifferent]

theorem hasBefore_of_own_stop (only : shape.own stmt.marksBefore = [shape.stop]) :
    stmt.hasBefore shape.start = false ∧ stmt.hasBefore shape.stop = true := by
  have hdifferent : shape.start ≠ shape.stop := by cases shape <;> decide
  simp [hasBefore_start, hasBefore_stop, only, hdifferent]

/-- The start marker of a shape is not among what is taken off in front of it. -/
theorem own_detach (only : shape.own stmt.marksBefore = [shape.start]) :
    shape.own (Marker.among (stmt.detach shape.start).1) = [] ∧
      shape.own (stmt.detach shape.start).2.marksBefore = [shape.start] := by
  obtain ⟨carried, left, hdetach, hbefore⟩ := stmt.detach_eq shape.start
  have hcarried := not_mem_among_detach stmt shape.start
  rw [marksBefore, ← hbefore, Marker.among_append, Shape.own_append] at only
  rw [hdetach] at hcarried ⊢
  cases hown : shape.own (Marker.among carried) with
  | nil =>
      rw [hown, List.nil_append] at only
      exact ⟨rfl, only⟩
  | cons marker rest =>
      rw [hown, List.cons_append, List.cons_eq_cons] at only
      have member : shape.start ∈ shape.own (Marker.among carried) := by
        simp [hown, only.1]
      exact absurd (Shape.start_mem_own.mp member) hcarried

end Stmt

/-! ## Segments of one shape -/

namespace Segment

def isMarked : Segment Action → Bool
  | .plain _ => false
  | .marked _ _ _ _ => true

/-- Whether a statement has no markers of a shape above it or behind it. -/
def isQuiet (shape : Shape) (stmt : Stmt Action) : Bool :=
  decide (shape.own stmt.marksBefore = []) && decide (shape.own stmt.marksAfter = [])

/-- Whether there are no markers of a shape between a statement and those that
follow it, and only certain ones behind the last of them. -/
def closesWith (shape : Shape) (marks : List Marker) (stmt : Stmt Action) :
    List (Stmt Action) → Bool
  | [] => shape.own stmt.marksAfter = marks
  | next :: later =>
      decide (shape.own stmt.marksAfter = []) && decide (shape.own next.marksBefore = []) &&
        closesWith shape marks next later

/-- Whether plain statements and marked segments of one shape follow each other,
with the markers of their shape where they belong and nowhere else; `above` are
those that stand in front of the first segment. -/
def inRow (shape : Shape) : List Marker → List (Segment Action) → Bool
  | above, [] => above = []
  | above, .plain stmt :: rest =>
      decide (shape.own stmt.marksBefore = above) && decide (shape.own stmt.marksAfter = []) &&
        inRow shape [] rest
  | above, .marked kind first more behind :: rest =>
      decide (kind = shape) && decide (shape.own first.marksBefore = above ++ [shape.start]) &&
        closesWith shape (if behind then [shape.stop] else []) first more &&
        inRow shape (if behind then [] else [shape.stop]) rest

variable {shape kind : Shape} {marks above : List Marker} {stmt first next : Stmt Action}
  {more later : List (Stmt Action)} {behind : Bool} {rest : List (Segment Action)}

theorem isQuiet_iff : isQuiet shape stmt = true ↔
    shape.own stmt.marksBefore = [] ∧ shape.own stmt.marksAfter = [] := by
  simp only [isQuiet, Bool.and_eq_true, decide_eq_true_eq]

theorem closesWith_nil :
    closesWith shape marks stmt [] = true ↔ shape.own stmt.marksAfter = marks :=
  decide_eq_true_iff

theorem closesWith_cons :
    closesWith shape marks stmt (next :: later) = true ↔ shape.own stmt.marksAfter = [] ∧
      shape.own next.marksBefore = [] ∧ closesWith shape marks next later = true := by
  simp only [closesWith, Bool.and_eq_true, decide_eq_true_eq, and_assoc]

theorem inRow_plain :
    inRow shape above (.plain stmt :: rest) = true ↔ shape.own stmt.marksBefore = above ∧
      shape.own stmt.marksAfter = [] ∧ inRow shape [] rest = true := by
  simp only [inRow, Bool.and_eq_true, decide_eq_true_eq, and_assoc]

theorem inRow_marked :
    inRow shape above (.marked kind first more behind :: rest) = true ↔ kind = shape ∧
      shape.own first.marksBefore = above ++ [shape.start] ∧
      closesWith shape (if behind then [shape.stop] else []) first more = true ∧
      inRow shape (if behind then [] else [shape.stop]) rest = true := by
  simp only [inRow, Bool.and_eq_true, decide_eq_true_eq, and_assoc]

/-- Plain statements in front of other segments. -/
theorem inRow_plains_append {front : List (Stmt Action)} :
    inRow shape [] (front.map .plain ++ rest) = true ↔
      (∀ stmt ∈ front, isQuiet shape stmt = true) ∧ inRow shape [] rest = true := by
  induction front with
  | nil => simp
  | cons stmt later ih =>
      rw [List.map_cons, List.cons_append, inRow_plain, ih, List.forall_mem_cons, isQuiet_iff]
      simp only [and_assoc]

/-- What stands above the first statement of a segment does not matter for how it
ends. -/
theorem closesWith_congr {other : Stmt Action} (same : stmt.after = other.after) :
    closesWith shape marks stmt more = closesWith shape marks other more := by
  have hmarks : stmt.marksAfter = other.marksAfter := congrArg Marker.among same
  cases more <;> simp [closesWith, hmarks]

/-- Statements that follow without markers belong to the same segment. -/
theorem closesWith_append (hfirst : closesWith shape [] first more = true)
    (hnext : shape.own next.marksBefore = []) (hlater : closesWith shape marks next later = true) :
    closesWith shape marks first (more ++ next :: later) = true := by
  induction more generalizing first with
  | nil => exact closesWith_cons.mpr ⟨closesWith_nil.mp hfirst, hnext, hlater⟩
  | cons second rest ih =>
      obtain ⟨hafter, hsecond, hrest⟩ := closesWith_cons.mp hfirst
      exact closesWith_cons.mpr ⟨hafter, hsecond, ih hrest⟩

/-- What stands behind the last statement of a segment. -/
theorem own_behindLast (closes : closesWith shape marks first more = true) :
    shape.own (Marker.among (first.behindLast more)) = marks := by
  induction more generalizing first with
  | nil => exact closesWith_nil.mp closes
  | cons next later ih => exact ih (closesWith_cons.mp closes).2.2

/-- The first statement of a sequence may change if it keeps what stands behind
it. -/
theorem inRow_modifyHead {above' : List Marker} {change : Stmt Action → Stmt Action}
    (keeps : ∀ stmt, (change stmt).after = stmt.after)
    (changes : ∀ stmt tail, tail ⊆ [shape.start] → shape.own stmt.marksBefore = above ++ tail →
      shape.own (change stmt).marksBefore = above' ++ tail)
    {segments : List (Segment Action)} (nonempty : segments ≠ [])
    (row : inRow shape above segments = true) :
    inRow shape above' (segments.modifyHead (mapFirst change)) = true := by
  obtain ⟨segment, rest, rfl⟩ := List.exists_cons_of_ne_nil nonempty
  cases segment with
  | plain stmt =>
      obtain ⟨hbefore, hafter, hrest⟩ := inRow_plain.mp row
      have hmarks := changes stmt [] (List.nil_subset _) (by rw [hbefore, List.append_nil])
      rw [List.append_nil] at hmarks
      have hkept : (change stmt).marksAfter = stmt.marksAfter :=
        congrArg Marker.among (keeps stmt)
      rw [← hkept] at hafter
      exact inRow_plain.mpr ⟨hmarks, hafter, hrest⟩
  | marked kind first more behind =>
      obtain ⟨hkind, hbefore, hcloses, hrest⟩ := inRow_marked.mp row
      have hmarks := changes first [shape.start] (List.Subset.refl _) hbefore
      rw [← closesWith_congr (keeps first)] at hcloses
      exact inRow_marked.mpr ⟨hkind, hmarks, hcloses, hrest⟩

/-- Comments without markers of a shape can be put above the first statement. -/
theorem inRow_attach {moved : List Text} (markless : shape.own (Marker.among moved) = [])
    {segments : List (Segment Action)} (row : inRow shape [] segments = true) :
    inRow shape [] (segments.modifyHead (mapFirst (Stmt.attach moved))) = true := by
  by_cases nonempty : segments = []
  · rw [nonempty]
    rfl
  · refine inRow_modifyHead ?_ ?_ nonempty row
    · intro stmt
      rfl
    · intro stmt tail _ hbefore
      rw [Stmt.marksBefore_attach, Shape.own_append, markless, hbefore]
      rfl

/-- The end marker above the first statement can be dropped. -/
theorem inRow_stripStop {segments : List (Segment Action)}
    (row : inRow shape [shape.stop] segments = true) :
    inRow shape []
      (segments.modifyHead (mapFirst fun stmt => (stmt.stripBefore shape.stop).1)) = true := by
  have nonempty : segments ≠ [] := by
    rintro rfl
    cases row
  have hdifferent : shape.start ≠ shape.stop := by cases shape <;> decide
  refine inRow_modifyHead ?_ ?_ nonempty row
  · intro stmt
    rfl
  · intro stmt tail hstart hbefore
    have hkept : tail.filter (· ≠ shape.stop) = tail := by
      rw [List.filter_eq_self]
      intro marker member
      rw [List.mem_singleton.mp (hstart member)]
      exact decide_eq_true hdifferent
    rw [Stmt.marksBefore_stripBefore, Shape.own_filter, hbefore, List.filter_append, hkept]
    simp

/-- Comments go above the first statement of a sequence, or in front of the closing
text if there is none. -/
theorem addAbove_allStmts (moved : List Text) (segments : List (Segment Action))
    (opening closing : Text) :
    Block.addAbove moved ⟨opening, allStmts segments, closing⟩ =
      ⟨opening, allStmts (segments.modifyHead (mapFirst (Stmt.attach moved))),
        (if segments.isEmpty then moved else []).flatten ++ closing⟩ := by
  cases segments with
  | nil => rfl
  | cons segment rest => cases segment <;> rfl

end Segment

end Deinstrument
