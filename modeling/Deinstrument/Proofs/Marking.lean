import Deinstrument.Proofs.Deletion

/-!
# Markers of a statement

Two kinds of markers never start the same comment, so the comments above and
behind a statement show a list of markers each. Everything that is done to the
comments of a statement is described here by what it does to these two lists.
-/

namespace Deinstrument

namespace Marker

/-- A comment is a marker of at most one kind. -/
theorem isOn_unique {first second : Marker} {comment : Text}
    (hfirst : first.isOn comment = true) (hsecond : second.isOn comment = true) :
    first = second := by
  have hfirst := List.isPrefixOf_iff_prefix.mp hfirst
  have hsecond := List.isPrefixOf_iff_prefix.mp hsecond
  rcases List.prefix_or_prefix_of_prefix hfirst hsecond with hshort | hshort <;>
    revert hshort <;> cases first <;> cases second <;> decide

theorem classify_eq_some_iff {entry : Text} {marker : Marker} :
    classify entry = some marker ↔ marker.isOn (Comment.body entry) = true := by
  constructor
  · intro hkind
    have hon := List.find?_some hkind
    exact hon
  · intro hon
    have member : marker ∈ all := by cases marker <;> decide
    cases hkind : classify entry with
    | none => exact absurd hon (List.find?_eq_none.mp hkind marker member)
    | some other =>
        have hother := List.find?_some hkind
        rw [isOn_unique hother hon]

theorem isOn_eq_decide (marker : Marker) (entry : Text) :
    marker.isOn (Comment.body entry) = decide (classify entry = some marker) := by
  rw [Bool.eq_iff_iff, decide_eq_true_iff, classify_eq_some_iff]

@[simp]
theorem classify_carry (blank : Nat) (entry : Text) :
    classify (Stmt.carry blank entry) = classify entry := by
  simp [classify]

/-- The markers among several comments, in order. -/
def among (entries : List Text) : List Marker :=
  entries.filterMap classify

@[simp]
theorem among_nil : among [] = [] := rfl

@[simp]
theorem among_append (front back : List Text) :
    among (front ++ back) = among front ++ among back :=
  List.filterMap_append

theorem mem_among {entries : List Text} {marker : Marker} :
    marker ∈ among entries ↔ ∃ entry ∈ entries, marker.isOn (Comment.body entry) = true := by
  simp only [among, List.mem_filterMap, classify_eq_some_iff]

theorem among_eq_nil_iff {entries : List Text} :
    among entries = [] ↔ ∀ entry ∈ entries, classify entry = none :=
  List.filterMap_eq_nil_iff

/-- Dropping the comments of one kind drops the markers of that kind. -/
theorem among_filter (marker : Marker) (entries : List Text) :
    among (entries.filter fun entry => !marker.isOn (Comment.body entry)) =
      (among entries).filter (· ≠ marker) := by
  induction entries with
  | nil => rfl
  | cons first rest ih =>
      simp only [among, isOn_eq_decide, ne_eq, decide_not] at ih ⊢
      cases hkind : classify first with
      | none => simp [hkind, ih]
      | some other =>
          by_cases hother : other = marker
          · simp [hkind, hother, ih]
          · simp [hkind, hother, ih]

/-- Comments behind the last statement of a cut stay only if they are no
markers. -/
theorem among_filter_stays (entries : List Text) : among (entries.filter Cut.stays) = [] := by
  rw [among_eq_nil_iff]
  intro entry member
  have hstays := (List.mem_filter.mp member).2
  simp only [Cut.stays, Bool.and_eq_true, Option.isNone_iff_eq_none] at hstays
  exact hstays.2

end Marker

theorem Cut.among_moved {Action : Type} (cut : Cut Action) :
    Marker.among cut.moved = Marker.among cut.carried := by
  unfold moved
  split <;> simp [Marker.among_filter_stays]

namespace Stmt

variable {Action : Type}

/-- The markers above a statement. -/
def marksBefore (stmt : Stmt Action) : List Marker :=
  Marker.among stmt.before

/-- The markers behind a statement. -/
def marksAfter (stmt : Stmt Action) : List Marker :=
  Marker.among stmt.after

theorem hasBefore_iff {stmt : Stmt Action} {marker : Marker} :
    stmt.hasBefore marker = true ↔ marker ∈ stmt.marksBefore := by
  rw [hasBefore, List.any_eq_true, marksBefore, Marker.mem_among]

theorem hasAfter_iff {stmt : Stmt Action} {marker : Marker} :
    stmt.hasAfter marker = true ↔ marker ∈ stmt.marksAfter := by
  rw [hasAfter, List.any_eq_true, marksAfter, Marker.mem_among]

theorem hasBefore_eq (stmt : Stmt Action) (marker : Marker) :
    stmt.hasBefore marker = decide (marker ∈ stmt.marksBefore) := by
  rw [Bool.eq_iff_iff, decide_eq_true_iff, hasBefore_iff]

theorem hasAfter_eq (stmt : Stmt Action) (marker : Marker) :
    stmt.hasAfter marker = decide (marker ∈ stmt.marksAfter) := by
  rw [Bool.eq_iff_iff, decide_eq_true_iff, hasAfter_iff]

/-! ## Dropping markers -/

/-- Blank lines that move on change no marker. -/
theorem among_dropEntries (marker : Marker) (blank : Nat) (entries : List Text) (space : Text) :
    Marker.among (dropEntries marker.isOn blank entries space).1 =
      (Marker.among entries).filter (· ≠ marker) := by
  rw [← Marker.among_filter]
  induction entries generalizing blank with
  | nil => rfl
  | cons first rest ih =>
      by_cases hdrops : marker.isOn (Comment.body first) = true
      · rw [dropEntries_cons_drop hdrops, List.filter_cons_of_neg (by simp [hdrops])]
        exact ih _
      · rw [dropEntries_cons_keep hdrops, List.filter_cons_of_pos (by simp [hdrops])]
        have later := ih 0
        simp only [Marker.among] at later ⊢
        rw [List.filterMap_cons, List.filterMap_cons, Marker.classify_carry, later]

@[simp]
theorem marksBefore_stripBefore (stmt : Stmt Action) (marker : Marker) :
    (stmt.stripBefore marker).1.marksBefore = stmt.marksBefore.filter (· ≠ marker) :=
  among_dropEntries marker 0 stmt.before stmt.space

@[simp]
theorem marksAfter_stripBefore (stmt : Stmt Action) (marker : Marker) :
    (stmt.stripBefore marker).1.marksAfter = stmt.marksAfter :=
  rfl

@[simp]
theorem marksAfter_stripAfter (stmt : Stmt Action) (marker : Marker) :
    (stmt.stripAfter marker).1.marksAfter = stmt.marksAfter.filter (· ≠ marker) :=
  Marker.among_filter marker stmt.after

@[simp]
theorem marksBefore_strip (stmt : Stmt Action) (marker : Marker) :
    (stmt.strip marker).1.marksBefore = stmt.marksBefore.filter (· ≠ marker) :=
  marksBefore_stripBefore stmt marker

@[simp]
theorem marksAfter_strip (stmt : Stmt Action) (marker : Marker) :
    (stmt.strip marker).1.marksAfter = stmt.marksAfter.filter (· ≠ marker) :=
  marksAfter_stripAfter (stmt.stripBefore marker).1 marker

/-- Something is dropped above a statement exactly if there is a marker. -/
theorem stripBefore_pos_iff {stmt : Stmt Action} {marker : Marker} :
    0 < (stmt.stripBefore marker).2 ↔ stmt.hasBefore marker = true := by
  have hcount : (stmt.stripBefore marker).2 =
      stmt.before.countP fun entry => marker.isOn (Comment.body entry) :=
    dropEntries_count marker.isOn 0 stmt.before stmt.space
  rw [hcount, List.countP_pos_iff, hasBefore, List.any_eq_true]

/-- Something is dropped behind a statement exactly if there is a marker. -/
theorem stripAfter_pos_iff {stmt : Stmt Action} {marker : Marker} :
    0 < (stmt.stripAfter marker).2 ↔ stmt.hasAfter marker = true := by
  have hcount : (stmt.stripAfter marker).2 =
      stmt.after.countP fun entry => marker.isOn (Comment.body entry) := by
    have htotal := List.length_eq_countP_add_countP
      (fun entry => marker.isOn (Comment.body entry)) (l := stmt.after)
    have hkept := List.countP_eq_length_filter
      (p := fun entry => !marker.isOn (Comment.body entry)) (l := stmt.after)
    simp only [stripAfter, dropAfter]
    simp only [Bool.not_eq_true, Bool.decide_eq_false] at htotal
    omega
  rw [hcount, List.countP_pos_iff, hasAfter, List.any_eq_true]

/-! ## Taking comments off and putting them back -/

@[simp]
theorem marksBefore_attach (entries : List Text) (stmt : Stmt Action) :
    (stmt.attach entries).marksBefore = Marker.among entries ++ stmt.marksBefore :=
  Marker.among_append entries stmt.before

@[simp]
theorem marksAfter_attach (entries : List Text) (stmt : Stmt Action) :
    (stmt.attach entries).marksAfter = stmt.marksAfter :=
  rfl

/-- Taking comments off a statement only divides the comments above it. -/
theorem detach_eq (stmt : Stmt Action) (marker : Marker) :
    ∃ carried left, stmt.detach marker = (carried, { stmt with before := left }) ∧
      carried ++ left = stmt.before := by
  unfold detach
  split
  · rename_i position _
    exact ⟨_, _, rfl, List.take_append_drop position stmt.before⟩
  · exact ⟨[], stmt.before, rfl, rfl⟩

@[simp]
theorem marksAfter_detach (stmt : Stmt Action) (marker : Marker) :
    (stmt.detach marker).2.marksAfter = stmt.marksAfter := by
  obtain ⟨carried, left, hdetach, -⟩ := stmt.detach_eq marker
  rw [hdetach]
  rfl

/-- The comments in front of the first marker of a kind are taken off. -/
theorem detach_of_before_eq {stmt : Stmt Action} {marker : Marker} {carried left : List Text}
    {entry : Text} (hbefore : stmt.before = carried ++ entry :: left)
    (hcarried : marker ∉ Marker.among carried) (hentry : Marker.classify entry = some marker) :
    stmt.detach marker = (carried, { stmt with before := entry :: left }) := by
  have hposition : stmt.before.findIdx? (fun entry => Marker.classify entry = some marker) =
      some carried.length := by
    rw [List.findIdx?_eq_some_iff_getElem]
    refine ⟨by simp [hbefore], by simp [hbefore, hentry], ?_⟩
    intro index hindex
    have member : carried[index] ∈ carried := List.getElem_mem hindex
    simp only [hbefore, List.getElem_append_left hindex, decide_eq_true_eq]
    intro hkind
    exact hcarried (List.mem_filterMap.mpr ⟨_, member, hkind⟩)
  unfold detach
  rw [hposition]
  simp [hbefore]

/-- The first marker of a kind above a statement, and the comments around it. -/
theorem before_eq_of_hasBefore {stmt : Stmt Action} {marker : Marker}
    (present : stmt.hasBefore marker = true) :
    ∃ carried entry left, stmt.before = carried ++ entry :: left ∧
      marker ∉ Marker.among carried ∧ Marker.classify entry = some marker := by
  obtain ⟨entry, hfound⟩ := Option.isSome_iff_exists.mp
    (List.find?_isSome.mpr (List.any_eq_true.mp present))
  obtain ⟨hon, carried, left, hbefore, hearlier⟩ := List.find?_eq_some_iff_append.mp hfound
  refine ⟨carried, entry, left, hbefore, ?_, Marker.classify_eq_some_iff.mpr hon⟩
  rw [Marker.mem_among]
  rintro ⟨other, member, hother⟩
  simpa [hother] using hearlier other member

/-- No marker of the kind is among the comments that are taken off. -/
theorem not_mem_among_detach (stmt : Stmt Action) (marker : Marker) :
    marker ∉ Marker.among (stmt.detach marker).1 := by
  by_cases present : stmt.hasBefore marker = true
  · obtain ⟨carried, entry, left, hbefore, hcarried, hentry⟩ := before_eq_of_hasBefore present
    rw [detach_of_before_eq hbefore hcarried hentry]
    exact hcarried
  · obtain ⟨carried, left, hdetach, hbefore⟩ := stmt.detach_eq marker
    rw [hasBefore_iff, marksBefore, ← hbefore, Marker.among_append, List.mem_append] at present
    rw [hdetach]
    exact fun member => present (.inl member)

theorem takeWhile_ne_append_cons {marker : Marker} {front : List Marker} (hfront : marker ∉ front)
    (back : List Marker) : (front ++ marker :: back).takeWhile (· ≠ marker) = front := by
  rw [List.takeWhile_append_of_pos]
  · simp
  · intro other member
    simpa using ne_of_mem_of_not_mem member hfront

/-- The first marker of a kind divides the markers above a statement. -/
theorem marks_detach {stmt : Stmt Action} {marker : Marker} {front back : List Marker}
    (hmarks : stmt.marksBefore = front ++ marker :: back) (hfront : marker ∉ front) :
    Marker.among (stmt.detach marker).1 = front ∧
      (stmt.detach marker).2.marksBefore = marker :: back := by
  have present : stmt.hasBefore marker = true := by simp [hasBefore_iff, hmarks]
  obtain ⟨carried, entry, left, hbefore, hcarried, hentry⟩ := before_eq_of_hasBefore present
  have hdivided : Marker.among carried ++ marker :: Marker.among left =
      front ++ marker :: back := by
    rw [← hmarks, marksBefore, hbefore, Marker.among_append]
    simp [Marker.among, hentry]
  have hsame : Marker.among carried = front := by
    rw [← takeWhile_ne_append_cons hcarried (Marker.among left), hdivided,
      takeWhile_ne_append_cons hfront back]
  rw [hsame, List.append_cancel_left_eq] at hdivided
  rw [detach_of_before_eq hbefore hcarried hentry]
  refine ⟨hsame, Eq.trans ?_ hdivided⟩
  simp [marksBefore, Marker.among, hentry]

end Stmt

end Deinstrument
