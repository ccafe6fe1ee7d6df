import Deinstrument.Proofs.Notes

/-!
# Regions inside of regions

Where regions are nested, each start marker is still closed by the next end
marker: the statements between the two go, with all start markers among them.
Behind the end of an inner region nothing closes any more, so the rest of the
region around it stays, and its end marker is left. Nested regions go as a whole
exactly if none of them lies inside of another one.
-/

namespace Deinstrument

variable {Action : Type}

namespace Region

/-! ## Nested regions -/

/-- The markers above a statement at which at most one region ends and at most one
starts. -/
def jointMarks (ends starts : Bool) : List Marker :=
  (if ends then [.regionEnd] else []) ++ (if starts then [.regionStart] else [])

/-- Whether a statement has no region markers but those of one region that ends
above it and one that starts there. -/
def isJoint (stmt : Stmt Action) : Bool :=
  decide (Shape.region.own stmt.marksBefore =
    jointMarks (stmt.hasBefore .regionEnd) (stmt.hasBefore .regionStart)) &&
    decide (Shape.region.own stmt.marksAfter = [])

/-- The number of regions around a statement, given the number around the one in
front of it. -/
def depthAt (depth : Nat) (stmt : Stmt Action) : Nat :=
  depth - (stmt.hasBefore .regionEnd).toNat + (stmt.hasBefore .regionStart).toNat

/-- Whether the regions of statements are properly nested, inside of `depth` regions
that are open in front of them. -/
def isNested : Nat → List (Stmt Action) → Bool
  | depth, [] => depth = 0
  | depth, stmt :: rest =>
      isJoint stmt && decide (stmt.hasBefore .regionEnd = true → 0 < depth) &&
        isNested (depthAt depth stmt) rest

/-- The statements outside of all regions. -/
def uncovered : Nat → List (Stmt Action) → List (Stmt Action)
  | _, [] => []
  | depth, stmt :: rest =>
      if depthAt depth stmt = 0 then stmt :: uncovered 0 rest
      else uncovered (depthAt depth stmt) rest

/-- The greatest number of regions around one place. -/
def deepest : Nat → List (Stmt Action) → Nat
  | depth, [] => depth
  | depth, stmt :: rest => max depth (deepest (depthAt depth stmt) rest)

/-! ## What goes -/

/-- Whether a statement stands behind a start marker with no end marker between
them, given whether the statement in front of it does. -/
def goes (going : Bool) (stmt : Stmt Action) : Bool :=
  stmt.hasBefore .regionStart || (going && !stmt.hasBefore .regionEnd)

/-- The statements that stay if each start marker is closed by the next end
marker. -/
def staying : Bool → List (Stmt Action) → List (Stmt Action)
  | _, [] => []
  | going, stmt :: rest =>
      if goes going stmt then staying true rest else stmt :: staying false rest

/-- The number of end markers with no start marker between them and the end marker
before. -/
def looseEnds : Bool → List (Stmt Action) → Nat
  | _, [] => 0
  | going, stmt :: rest =>
      (!going && stmt.hasBefore .regionEnd).toNat + looseEnds (goes going stmt) rest

/-! ## Statements with at most two markers -/

theorem hasBefore_of_joint {stmt : Stmt Action} {ends starts : Bool}
    (joint : Shape.region.own stmt.marksBefore = jointMarks ends starts) :
    stmt.hasBefore .regionEnd = ends ∧ stmt.hasBefore .regionStart = starts := by
  have hends : stmt.hasBefore Shape.region.stop = ends := by
    rw [Stmt.hasBefore_stop, joint]
    cases ends <;> cases starts <;> rfl
  have hstarts : stmt.hasBefore Shape.region.start = starts := by
    rw [Stmt.hasBefore_start, joint]
    cases ends <;> cases starts <;> rfl
  exact ⟨hends, hstarts⟩

theorem isJoint_iff {stmt : Stmt Action} : isJoint stmt = true ↔
    Shape.region.own stmt.marksBefore =
      jointMarks (stmt.hasBefore .regionEnd) (stmt.hasBefore .regionStart) ∧
    Shape.region.own stmt.marksAfter = [] := by
  simp only [isJoint, Bool.and_eq_true, decide_eq_true_eq]

theorem isJoint_of_own {stmt : Stmt Action} {ends starts : Bool}
    (before : Shape.region.own stmt.marksBefore = jointMarks ends starts)
    (after : Shape.region.own stmt.marksAfter = []) : isJoint stmt = true := by
  obtain ⟨rfl, rfl⟩ := hasBefore_of_joint before
  exact isJoint_iff.mpr ⟨before, after⟩

theorem isNested_cons {depth : Nat} {stmt : Stmt Action} {rest : List (Stmt Action)} :
    isNested depth (stmt :: rest) = true ↔ isJoint stmt = true ∧
      (stmt.hasBefore .regionEnd = true → 0 < depth) ∧
      isNested (depthAt depth stmt) rest = true := by
  simp only [isNested, Bool.and_eq_true, decide_eq_true_eq, and_assoc]

/-- The end markers above a statement are those of regions. -/
theorem count_regionEnd (marks : List Marker) :
    (Shape.region.own marks).count .regionEnd = marks.count .regionEnd :=
  List.count_filter rfl

theorem count_marksBefore {stmt : Stmt Action} (joint : isJoint stmt = true) :
    stmt.marksBefore.count .regionEnd = (stmt.hasBefore .regionEnd).toNat := by
  obtain ⟨hbefore, -⟩ := isJoint_iff.mp joint
  rw [← count_regionEnd, hbefore]
  cases stmt.hasBefore .regionEnd <;> cases stmt.hasBefore .regionStart <;> rfl

/-- What stands in front of the start marker is taken off with the end marker
among it. -/
theorem own_detach_joint {stmt : Stmt Action} (joint : isJoint stmt = true)
    (starts : stmt.hasBefore .regionStart = true) :
    Shape.region.own (Marker.among (stmt.detach .regionStart).1) =
      jointMarks (stmt.hasBefore .regionEnd) false := by
  obtain ⟨hbefore, -⟩ := isJoint_iff.mp joint
  obtain ⟨carried, entry, left, hdivided, hcarried, hentry⟩ :=
    Stmt.before_eq_of_hasBefore starts
  have hown : Shape.region.own stmt.marksBefore =
      Shape.region.own (Marker.among carried) ++
        .regionStart :: Shape.region.own (Marker.among left) := by
    rw [Stmt.marksBefore, hdivided, Marker.among_append, Shape.own_append]
    simp [Marker.among, hentry, Shape.own, Shape.start]
  have habsent : Marker.regionStart ∉ Shape.region.own (Marker.among carried) :=
    fun member => hcarried (Shape.start_mem_own.mp member)
  rw [Stmt.detach_of_before_eq hdivided hcarried hentry,
    ← Stmt.takeWhile_ne_append_cons habsent (Shape.region.own (Marker.among left)), ← hown,
    hbefore, starts]
  cases stmt.hasBefore .regionEnd <;> rfl

/-! ## The next end marker -/

/-- What the walk comes to: statements that are nested, except that it may have
changed the end markers above the first of them. -/
def Ready : List (Stmt Action) → Prop
  | [] => True
  | stmt :: rest => isJoint stmt = true ∧
      ∃ depth, (stmt.hasBefore .regionStart = true → 0 < depth) ∧ isNested depth rest = true

theorem ready_of_nested {depth : Nat} {stmts : List (Stmt Action)}
    (nested : isNested depth stmts = true) : Ready stmts := by
  cases stmts with
  | nil => trivial
  | cons stmt rest =>
      obtain ⟨joint, -, hrest⟩ := isNested_cons.mp nested
      refine ⟨joint, depthAt depth stmt, ?_, hrest⟩
      intro starts
      simp [depthAt, starts]

/-- Inside of a region there is an end marker to come. -/
theorem exists_nextEnd {depth : Nat} {stmts : List (Stmt Action)}
    (nested : isNested depth stmts = true) (covered : 0 < depth) :
    ∃ inside next later, stmts = inside ++ next :: later ∧
      (∀ stmt ∈ inside, stmt.hasBefore .regionEnd = false ∧ stmt.hasAfter .regionEnd = false) ∧
      next.hasBefore .regionEnd = true ∧ Ready (next :: later) := by
  induction stmts generalizing depth with
  | nil =>
      have hzero : depth = 0 := of_decide_eq_true nested
      omega
  | cons stmt rest ih =>
      obtain ⟨joint, -, hrest⟩ := isNested_cons.mp nested
      cases hends : stmt.hasBefore .regionEnd with
      | true => exact ⟨[], stmt, rest, rfl, by simp, hends, ready_of_nested nested⟩
      | false =>
          have hdeeper : 0 < depthAt depth stmt := by
            simp only [depthAt, hends, Bool.toNat_false]
            omega
          obtain ⟨inside, next, later, rfl, unended, hnext, ready⟩ := ih hrest hdeeper
          have hafter : stmt.hasAfter .regionEnd = false :=
            (Stmt.hasAfter_of_own_nil (isJoint_iff.mp joint).2 :)
          exact ⟨stmt :: inside, next, later, rfl,
            List.forall_mem_cons.mpr ⟨⟨hends, hafter⟩, unended⟩, hnext, ready⟩

/-- Statements without end markers go if those in front of them do. -/
theorem staying_append {inside : List (Stmt Action)}
    (unended : ∀ stmt ∈ inside, stmt.hasBefore .regionEnd = false) (rest : List (Stmt Action)) :
    staying true (inside ++ rest) = staying true rest ∧
      looseEnds true (inside ++ rest) = looseEnds true rest := by
  induction inside with
  | nil => exact ⟨rfl, rfl⟩
  | cons stmt later ih =>
      obtain ⟨hstmt, hlater⟩ := List.forall_mem_cons.mp unended
      have hgoes : goes true stmt = true := by simp [goes, hstmt]
      simp only [List.cons_append, staying, looseEnds, hgoes, if_true, Bool.not_true,
        Bool.false_and, Bool.toNat_false, Nat.zero_add]
      exact ih hlater

/-! ## The walk -/

/-- What is left of statements: those that stay, in order, with no start marker above
them and as many end markers as close nothing. -/
structure Leaves (stmts left : List (Stmt Action)) : Prop where
  same : List.Forall₂ Stmt.SameAs left (staying false stmts)
  shut : ∀ stmt ∈ left, stmt.hasBefore .regionStart = false
  quiet : ∀ stmt ∈ left, Shape.region.own stmt.marksAfter = []
  ends : (left.flatMap (·.marksBefore)).count .regionEnd = looseEnds false stmts

/-- A statement at which no region starts stays. -/
theorem Leaves.cons {stmt : Stmt Action} {rest left : List (Stmt Action)}
    (leaves : Leaves rest left) (joint : isJoint stmt = true)
    (shut : stmt.hasBefore .regionStart = false) : Leaves (stmt :: rest) (stmt :: left) := by
  have hgoes : goes false stmt = false := by simp [goes, shut]
  constructor
  · rw [staying, hgoes, if_neg Bool.false_ne_true]
    exact .cons (.refl stmt) leaves.same
  · exact List.forall_mem_cons.mpr ⟨shut, leaves.shut⟩
  · exact List.forall_mem_cons.mpr ⟨(isJoint_iff.mp joint).2, leaves.quiet⟩
  · rw [List.flatMap_cons, List.count_append, count_marksBefore joint, leaves.ends, looseEnds,
      hgoes]
    rfl

/-- A region goes up to the next end marker. What is left are the statements from
there on, where the marker is dropped, and another one may come in its place that
stood above the region. -/
theorem Leaves.region {stmt next changed : Stmt Action} {inside later left : List (Stmt Action)}
    (starts : stmt.hasBefore .regionStart = true)
    (unended : ∀ stmt ∈ inside, stmt.hasBefore .regionEnd = false)
    (ended : next.hasBefore .regionEnd = true) (same : Stmt.SameAs changed next)
    (ends_eq : changed.hasBefore .regionEnd = stmt.hasBefore .regionEnd)
    (starts_eq : changed.hasBefore .regionStart = next.hasBefore .regionStart)
    (leaves : Leaves (changed :: later) left) :
    Leaves (stmt :: (inside ++ next :: later)) left := by
  obtain ⟨hstaying, hloose⟩ := staying_append unended (next :: later)
  have hgoes : goes false stmt = true := by simp [goes, starts]
  have hnext : goes true next = next.hasBefore .regionStart := by simp [goes, ended]
  have hchanged : goes false changed = next.hasBefore .regionStart := by simp [goes, starts_eq]
  have hsame := leaves.same
  have hends := leaves.ends
  rw [looseEnds, hchanged, ends_eq] at hends
  rw [staying, hchanged] at hsame
  refine ⟨?_, leaves.shut, leaves.quiet, ?_⟩
  · rw [staying, hgoes, if_pos rfl, hstaying, staying, hnext]
    cases hstart : next.hasBefore .regionStart with
    | true =>
        rw [hstart, if_pos rfl] at hsame
        exact hsame
    | false =>
        rw [hstart, if_neg Bool.false_ne_true] at hsame
        obtain ⟨first, rest, hfirst, hrest, rfl⟩ := List.forall₂_cons_right_iff.mp hsame
        exact .cons (hfirst.trans same) hrest
  · rw [looseEnds, hgoes, hloose, looseEnds, hnext, hends]
    simp

/-- The walk leaves the statements that stay. -/
theorem leaves_remove {stmts : List (Stmt Action)} (ready : Ready stmts) (opening closing : Text) :
    Leaves stmts (remove ⟨opening, stmts, closing⟩).1.stmts := by
  -- Each region that is cut out leaves fewer statements.
  induction hlength : stmts.length using Nat.strongRecOn generalizing stmts closing with
  | ind length ih =>
      cases stmts with
      | nil => exact ⟨.nil, by simp [remove, removeUpTo, scan], by simp [remove, removeUpTo, scan],
          rfl⟩
      | cons stmt rest =>
          obtain ⟨joint, depth, covered, nested⟩ := ready
          have hafter : Shape.region.own stmt.marksAfter = [] := (isJoint_iff.mp joint).2
          cases starts : stmt.hasBefore .regionStart with
          | false =>
              rw [remove_cons_of_not_hasBefore starts]
              exact (ih rest.length (by simp [← hlength]) (ready_of_nested nested) closing
                rfl).cons joint starts
          | true =>
              obtain ⟨inside, next, later, rfl, unended, ended, hjoint, depth', covered', hlater⟩ :=
                exists_nextEnd nested (covered starts)
              let opened := ((stmt.detach .regionStart).2.stripBefore .regionStart).1
              have hopened : opened.hasAfter .regionEnd = false := by
                have hmarks : opened.marksAfter = stmt.marksAfter :=
                  Stmt.marksAfter_detach stmt .regionStart
                rw [← hmarks] at hafter
                exact (Stmt.hasAfter_of_own_nil hafter :)
              have hclose : close opened (inside ++ next :: later) =
                  some (opened :: inside, (next.stripBefore .regionEnd).1 :: later) := by
                rw [close_eq, hopened, closeAmong_append unended, closeAmong_cons, ended]
                simp
              rw [remove_cons_of_close starts hclose]
              let moved := (Cut.mk [] (opened :: inside) (stmt.detach .regionStart).1
                ((next.stripBefore .regionEnd).1 :: later)).moved
              let changed := (next.stripBefore .regionEnd).1.attach moved
              have hown : Shape.region.own changed.marksBefore =
                  jointMarks (stmt.hasBefore .regionEnd) (next.hasBefore .regionStart) := by
                have hcarried := own_detach_joint joint starts
                obtain ⟨hnext, -⟩ := isJoint_iff.mp hjoint
                rw [Stmt.marksBefore_attach, Shape.own_append, Cut.among_moved, hcarried,
                  Stmt.marksBefore_stripBefore, Shape.own_filter, hnext, ended]
                cases stmt.hasBefore .regionEnd <;> cases next.hasBefore .regionStart <;> rfl
              obtain ⟨hends, hstarts⟩ := hasBefore_of_joint hown
              have hready : Ready (changed :: later) := by
                refine ⟨isJoint_of_own hown (isJoint_iff.mp hjoint).2, depth', ?_, hlater⟩
                rw [hstarts]
                exact covered'
              have hless : (changed :: later).length < length := by
                simp only [← hlength, List.length_cons, List.length_append]
                omega
              have same : Stmt.SameAs changed next := ⟨rfl, rfl, rfl⟩
              exact (ih _ hless hready closing rfl).region starts
                (fun stmt member => (unended stmt member).1) ended same hends hstarts

/-! ## Regions without regions in them -/

theorem le_deepest (depth : Nat) (stmts : List (Stmt Action)) : depth ≤ deepest depth stmts := by
  cases stmts with
  | nil => exact Nat.le_refl _
  | cons stmt rest => exact Nat.le_max_left _ _

/-- A statement that goes lies inside of a region. -/
theorem depthAt_pos {depth : Nat} {going : Bool} {stmt : Stmt Action}
    (covered : going = true → 0 < depth) (goes_true : goes going stmt = true) :
    0 < depthAt depth stmt := by
  simp only [goes, Bool.or_eq_true, Bool.and_eq_true, Bool.not_eq_true'] at goes_true
  rcases goes_true with starts | ⟨hgoing, unended⟩
  · simp [depthAt, starts]
  · have := covered hgoing
    simp only [depthAt, unended, Bool.toNat_false]
    omega

/-- The statements outside of all regions stay. -/
theorem uncovered_sublist_staying {depth : Nat} {going : Bool}
    (covered : going = true → 0 < depth) (stmts : List (Stmt Action)) :
    List.Sublist (uncovered depth stmts) (staying going stmts) := by
  induction stmts generalizing depth going with
  | nil => exact .slnil
  | cons stmt rest ih =>
      have hcovered : goes going stmt = true → 0 < depthAt depth stmt := depthAt_pos covered
      rw [uncovered, staying]
      split
      · rename_i houtside
        have hstays : goes going stmt = false := by
          rw [← Bool.not_eq_true]
          intro hgoes
          have := hcovered hgoes
          omega
        rw [hstays, if_neg Bool.false_ne_true]
        exact (ih (by simp)).cons_cons stmt
      · split
        · rename_i hgoes
          exact ih fun _ => hcovered hgoes
        · exact (ih (by simp)).cons stmt

/-- Where a region lies inside of another one, a statement of the outer one stays. -/
theorem length_uncovered_lt {depth : Nat} {going : Bool} {stmts : List (Stmt Action)}
    (covered : going = true → 0 < depth) (nested : isNested depth stmts = true)
    (deep : 2 ≤ deepest depth stmts) :
    (uncovered depth stmts).length < (staying going stmts).length := by
  induction stmts generalizing depth going with
  | nil =>
      have hzero : depth = 0 := of_decide_eq_true nested
      rw [deepest] at deep
      omega
  | cons stmt rest ih =>
      obtain ⟨-, -, hrest⟩ := isNested_cons.mp nested
      have hcovered : goes going stmt = true → 0 < depthAt depth stmt := depthAt_pos covered
      by_cases hdeep : 2 ≤ deepest (depthAt depth stmt) rest
      · have later := ih hcovered hrest hdeep
        rw [uncovered, staying]
        by_cases hgoes : goes going stmt = true
        · have hinside : depthAt depth stmt ≠ 0 := (hcovered hgoes).ne'
          rw [hgoes] at later
          rw [if_neg hinside, if_pos hgoes]
          exact later
        · rw [Bool.not_eq_true] at hgoes
          rw [hgoes] at later
          rw [hgoes, if_neg Bool.false_ne_true]
          split
          · rename_i houtside
            rw [houtside] at later
            simpa using later
          · exact later.trans (Nat.lt_succ_self _)
      · -- An inner region ends here, and no other one starts.
        rw [deepest] at deep
        have hshallow : depthAt depth stmt ≤ 1 :=
          (le_deepest (depthAt depth stmt) rest).trans (by omega)
        have htwo : 2 ≤ depth := by omega
        have hends : stmt.hasBefore .regionEnd = true := by
          rw [← Bool.not_eq_false]
          intro hends
          simp only [depthAt, hends, Bool.toNat_false] at hshallow
          omega
        have hstarts : stmt.hasBefore .regionStart = false := by
          rw [← Bool.not_eq_true]
          intro hstarts
          simp only [depthAt, hends, hstarts, Bool.toNat_true] at hshallow
          omega
        have hgoes : goes going stmt = false := by simp [goes, hends, hstarts]
        have hinside : depthAt depth stmt ≠ 0 := by
          simp only [depthAt, hends, hstarts, Bool.toNat_true, Bool.toNat_false]
          omega
        rw [uncovered, staying, if_neg hinside, hgoes, if_neg Bool.false_ne_true]
        have hsublist : List.Sublist (uncovered (depthAt depth stmt) rest) (staying false rest) :=
          uncovered_sublist_staying (by simp) rest
        exact Nat.lt_succ_of_le hsublist.length_le

/-- Where at most one region is open, the statements that go are those inside of it. -/
theorem goes_eq_decide {depth : Nat} {stmt : Stmt Action} (shallow : depth ≤ 1)
    (shallow' : depthAt depth stmt ≤ 1) :
    goes (decide (depth = 1)) stmt = decide (depthAt depth stmt = 1) := by
  revert shallow'
  rw [Bool.eq_iff_iff, decide_eq_true_iff, depthAt, goes]
  cases stmt.hasBefore .regionEnd with
  | false => cases stmt.hasBefore .regionStart <;> simp
  | true =>
      cases stmt.hasBefore .regionStart with
      | false =>
          simp
          omega
      | true => simp

/-- Where no region lies inside of another one, all of them go, and every end marker
closes one. -/
theorem staying_eq_uncovered {depth : Nat} {stmts : List (Stmt Action)}
    (nested : isNested depth stmts = true) (flat : deepest depth stmts ≤ 1) :
    staying (decide (depth = 1)) stmts = uncovered depth stmts ∧
      looseEnds (decide (depth = 1)) stmts = 0 := by
  induction stmts generalizing depth with
  | nil => exact ⟨rfl, rfl⟩
  | cons stmt rest ih =>
      obtain ⟨-, hclosed, hrest⟩ := isNested_cons.mp nested
      rw [deepest] at flat
      have hflat : depthAt depth stmt ≤ 1 :=
        (le_deepest _ rest).trans ((Nat.le_max_right _ _).trans flat)
      have hdepth : depth ≤ 1 := (Nat.le_max_left _ _).trans flat
      obtain ⟨hstaying, hloose⟩ := ih hrest ((Nat.le_max_right _ _).trans flat)
      have hgoes := goes_eq_decide hdepth hflat
      have hends : (!decide (depth = 1) && stmt.hasBefore .regionEnd) = false := by
        rw [Bool.and_eq_false_iff]
        cases hends : stmt.hasBefore .regionEnd with
        | false => exact .inr rfl
        | true =>
            have := hclosed hends
            exact .inl (by simp; omega)
      rw [← hgoes] at hstaying hloose
      refine ⟨?_, ?_⟩
      · rw [staying, uncovered]
        by_cases houtside : depthAt depth stmt = 0
        · simp only [houtside] at hgoes hstaying ⊢
          rw [hgoes] at hstaying ⊢
          simpa using hstaying
        · have hinside : depthAt depth stmt = 1 := by omega
          simp only [hinside] at hgoes hstaying ⊢
          rw [hgoes] at hstaying ⊢
          simpa using hstaying
      · rw [looseEnds, hends, hloose]
        rfl

/-! ## What the removal leaves -/

/-- Removing nested regions takes away what stands between a start marker and the
next end marker. Nothing that lies outside of all regions goes. No start marker is
left above or behind a statement, no end marker behind one, and above them an end
marker is left for each one that follows another with no start marker between them. So nested regions go as a whole, with all of their markers,
exactly if none of them lies inside of another one. -/
theorem remove_nested (opening closing : Text) {stmts : List (Stmt Action)}
    (nested : isNested 0 stmts = true) :
    let removed := (remove ⟨opening, stmts, closing⟩).1
    List.Forall₂ Stmt.SameAs removed.stmts (staying false stmts) ∧
      List.Sublist (uncovered 0 stmts) (staying false stmts) ∧
      (∀ stmt ∈ removed.stmts, stmt.hasBefore .regionStart = false ∧
        stmt.hasAfter .regionStart = false ∧ stmt.hasAfter .regionEnd = false) ∧
      (removed.stmts.flatMap (·.marksBefore)).count .regionEnd = looseEnds false stmts ∧
      ((List.Forall₂ Stmt.SameAs removed.stmts (uncovered 0 stmts) ∧
        ∀ stmt ∈ removed.stmts, ∀ marker ∈ [Marker.regionStart, Marker.regionEnd],
          stmt.hasBefore marker = false ∧ stmt.hasAfter marker = false) ↔
        deepest 0 stmts ≤ 1) := by
  intro removed
  have leaves : Leaves stmts removed.stmts :=
    leaves_remove (ready_of_nested nested) opening closing
  have hquiet : ∀ stmt ∈ removed.stmts,
      stmt.hasAfter .regionStart = false ∧ stmt.hasAfter .regionEnd = false := by
    intro stmt member
    obtain ⟨hstart, hend⟩ := Shape.not_mem_of_own_nil (leaves.quiet stmt member)
    rw [Stmt.hasAfter_eq, Stmt.hasAfter_eq]
    exact ⟨decide_eq_false hstart, decide_eq_false hend⟩
  refine ⟨leaves.same, uncovered_sublist_staying (by simp) stmts,
    fun stmt member => ⟨leaves.shut stmt member, hquiet stmt member⟩, leaves.ends, ?_⟩
  constructor
  · rintro ⟨hall, -⟩
    by_contra deep
    have hless : (uncovered 0 stmts).length < (staying false stmts).length :=
      length_uncovered_lt (by simp) nested (by omega)
    have hstaying := leaves.same.length_eq
    have huncovered := hall.length_eq
    omega
  · intro flat
    obtain ⟨hstaying, hloose⟩ := staying_eq_uncovered nested flat
    refine ⟨hstaying ▸ leaves.same, ?_⟩
    intro stmt member marker hmarker
    have hnone : Marker.regionEnd ∉ stmt.marksBefore := by
      have hends := leaves.ends
      rw [show looseEnds false stmts = 0 from hloose, List.count_eq_zero] at hends
      exact fun hmember => hends (List.mem_flatMap.mpr ⟨stmt, member, hmember⟩)
    simp only [List.mem_cons, List.not_mem_nil, or_false] at hmarker
    rcases hmarker with rfl | rfl
    · exact ⟨leaves.shut stmt member, (hquiet stmt member).1⟩
    · exact ⟨by rw [Stmt.hasBefore_eq]; exact decide_eq_false hnone, (hquiet stmt member).2⟩

/-- A region with two others inside of it, one behind the other, and a region of its
own behind that. -/
def regionsInRegion : List (Stmt Text) :=
  let stmt (before : List String) (text : String) := Stmt.ofStrings before text.toList []
  [stmt ["\n\t//dd:startwrap"] "a++" 4, stmt ["\n\t//dd:startwrap"] "b++" 6,
    stmt ["\n\t//dd:endwrap", "\n\t//dd:startwrap"] "c++" 9, stmt ["\n\t//dd:endwrap"] "d++" 11,
    stmt ["\n\t//dd:endwrap", "\n\t// note"] "e++" 14, stmt ["\n\t//dd:startwrap"] "f++" 16,
    stmt ["\n\t//dd:endwrap"] "g++" 18]

theorem remove_nested_regionsInRegion :
    isNested 0 regionsInRegion = true ∧ deepest 0 regionsInRegion = 2 ∧
      let removed := (remove ⟨"\x7b".toList, regionsInRegion, "\n\x7d".toList⟩).1
      List.Forall₂ Stmt.SameAs removed.stmts (staying false regionsInRegion) ∧
        (removed.stmts.flatMap (·.marksBefore)).count .regionEnd = 1 ∧
        ¬(List.Forall₂ Stmt.SameAs removed.stmts (uncovered 0 regionsInRegion) ∧
          ∀ stmt ∈ removed.stmts, ∀ marker ∈ [Marker.regionStart, Marker.regionEnd],
            stmt.hasBefore marker = false ∧ stmt.hasAfter marker = false) := by
  have nested : isNested 0 regionsInRegion = true := by decide
  have hdeep : deepest 0 regionsInRegion = 2 := by decide
  obtain ⟨same, -, -, ends, whole⟩ :=
    remove_nested "\x7b".toList "\n\x7d".toList nested
  refine ⟨nested, hdeep, same, ends, ?_⟩
  rw [whole, hdeep]
  decide

/-- A region with another one inside of it. -/
def regionInRegion : List (Stmt Text) :=
  let stmt (before : List String) (text : String) := Stmt.ofStrings before text.toList []
  [stmt ["\n\t//dd:startwrap"] "a++" 5, stmt ["\n\t//dd:startwrap"] "b++" 7,
    stmt ["\n\t//dd:endwrap"] "c++" 9, stmt ["\n\t//dd:endwrap"] "d++" 11]

/-- The statement between the two end markers stays, and so does the second of them. -/
theorem remove_regionInRegion_not_whole :
    isNested 0 regionInRegion = true ∧
      (uncovered 0 regionInRegion).map (·.action) = ["d++".toList] ∧
      let removed := (remove ⟨"\x7b".toList, regionInRegion, "\n\x7d".toList⟩).1
      removed.stmts.map (·.action) = ["c++".toList, "d++".toList] ∧
        ∃ stmt ∈ removed.stmts, stmt.hasBefore .regionEnd = true := by
  refine ⟨?_, ?_, ?_, ?_⟩ <;> decide

end Region

end Deinstrument
