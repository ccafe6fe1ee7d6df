import Deinstrument.Proofs.Marking
import Deinstrument.Proofs.Removal

/-!
# Starting the scan again

After each removal the scan starts again from the top of the block. The number
of scans that a removal allows itself is never used up, so it plays no part in
the result. For regions the statements in front of a removed region have
nothing left to remove: one walk from the first statement to the last finds
the same regions, and every fact about their removal follows by induction
along that walk.
-/

namespace Deinstrument

variable {Action : Type}

/-- Put comments above the first statement of a block, or in front of its
closing text if it has no statements. -/
def Block.addAbove (entries : List Text) (block : Block Action) : Block Action :=
  match block.stmts with
  | next :: later => { block with stmts := next.attach entries :: later }
  | [] => { block with closing := entries.flatten ++ block.closing }

theorem Block.length_addAbove (entries : List Text) (block : Block Action) :
    (block.addAbove entries).stmts.length = block.stmts.length := by
  obtain ⟨opening, stmts, closing⟩ := block
  cases stmts <;> rfl

@[simp]
theorem Block.addAbove_nil (block : Block Action) : block.addAbove [] = block := by
  obtain ⟨opening, stmts, closing⟩ := block
  cases stmts <;> rfl

theorem Block.addAbove_addAbove (first second : List Text) (block : Block Action) :
    (block.addAbove second).addAbove first = block.addAbove (first ++ second) := by
  obtain ⟨opening, stmts, closing⟩ := block
  cases stmts <;> simp [addAbove, Stmt.attach]

/-- The comments that a cut moves go to whatever follows it. -/
theorem Cut.apply_eq (block : Block Action) (cut : Cut Action) :
    cut.apply block =
      let behind := Block.addAbove cut.moved { block with stmts := cut.back }
      { behind with stmts := cut.front ++ behind.stmts } := by
  obtain ⟨front, removed, carried, back⟩ := cut
  cases back <;> simp [apply, Block.addAbove]

@[simp]
theorem Cut.apply_addFront (block : Block Action) (cut : Cut Action) (stmt : Stmt Action) :
    (cut.addFront stmt).apply block =
      { cut.apply block with stmts := stmt :: (cut.apply block).stmts } := by
  obtain ⟨front, removed, carried, back⟩ := cut
  cases back <;> rfl

theorem Cut.length_apply (block : Block Action) (cut : Cut Action) :
    (cut.apply block).stmts.length = cut.front.length + cut.back.length := by
  rw [apply_eq, List.length_append, Block.length_addAbove]

namespace Region

/-! ## The end of a region -/

/-- A statement ends a region if an end marker stands above or behind it. -/
theorem closeAmong_cons (stmt : Stmt Action) (rest : List (Stmt Action)) :
    closeAmong (stmt :: rest) =
      if stmt.hasBefore .regionEnd then some ([], (stmt.stripBefore .regionEnd).1 :: rest)
      else if stmt.hasAfter .regionEnd then some ([(stmt.stripAfter .regionEnd).1], rest)
      else (closeAmong rest).map fun found => (stmt :: found.1, found.2) := by
  simp only [closeAmong, Stmt.stripBefore_pos_iff, Stmt.stripAfter_pos_iff]
  cases closeAmong rest <;> rfl

theorem close_eq (first : Stmt Action) (rest : List (Stmt Action)) :
    close first rest =
      if first.hasAfter .regionEnd then some ([(first.stripAfter .regionEnd).1], rest)
      else (closeAmong rest).map fun found => (first :: found.1, found.2) := by
  simp only [close, Stmt.stripAfter_pos_iff]
  cases closeAmong rest <;> rfl

/-- Statements without end markers do not end a region. -/
theorem closeAmong_append {stmts : List (Stmt Action)}
    (unended : ∀ stmt ∈ stmts,
      stmt.hasBefore .regionEnd = false ∧ stmt.hasAfter .regionEnd = false)
    (rest : List (Stmt Action)) :
    closeAmong (stmts ++ rest) =
      (closeAmong rest).map fun found => (stmts ++ found.1, found.2) := by
  induction stmts with
  | nil => simp
  | cons stmt later ih =>
      rw [List.forall_mem_cons] at unended
      obtain ⟨⟨hbefore, hafter⟩, hlater⟩ := unended
      rw [List.cons_append, closeAmong_cons, hbefore, hafter, ih hlater]
      simp [Function.comp_def]

/-- Where no end marker stands above its first statement, the end of a region is
the first end marker. -/
theorem close_eq_closeAmong {first : Stmt Action} (absent : first.hasBefore .regionEnd = false)
    (rest : List (Stmt Action)) : close first rest = closeAmong (first :: rest) := by
  rw [close_eq, closeAmong_cons, absent]
  simp

/-- The statements up to the first end marker are followed by the statement
below the marker, or end with the statement in front of it. -/
theorem closeAmong_cases {stmts inside outside : List (Stmt Action)}
    (closed : closeAmong stmts = some (inside, outside)) :
    (∃ next later, next.hasBefore .regionEnd = true ∧ stmts = inside ++ next :: later ∧
      outside = (next.stripBefore .regionEnd).1 :: later) ∨
    ∃ front last, last.hasAfter .regionEnd = true ∧ stmts = front ++ last :: outside ∧
      inside = front ++ [(last.stripAfter .regionEnd).1] := by
  induction stmts generalizing inside outside with
  | nil => cases closed
  | cons stmt rest ih =>
      rw [closeAmong_cons] at closed
      split at closed
      · rename_i hbefore
        cases closed
        exact .inl ⟨stmt, rest, hbefore, rfl, rfl⟩
      · split at closed
        · rename_i hafter
          cases closed
          exact .inr ⟨[], stmt, hafter, rfl, rfl⟩
        · obtain ⟨⟨within, without⟩, hrest, hfound⟩ := Option.map_eq_some_iff.mp closed
          cases hfound
          rcases ih hrest with
            ⟨next, later, hends, hstmts, houtside⟩ | ⟨front, last, hends, hstmts, hinside⟩
          · exact .inl ⟨next, later, hends, by simp [hstmts], houtside⟩
          · exact .inr ⟨stmt :: front, last, hends, by simp [hstmts], by simp [hinside]⟩

/-- A region has the statement at which it opens, and ends below or behind one
of its statements. -/
theorem close_cases {first : Stmt Action} {rest inside outside : List (Stmt Action)}
    (closed : close first rest = some (inside, outside)) :
    (∃ next later, next.hasBefore .regionEnd = true ∧ first :: rest = inside ++ next :: later ∧
      inside ≠ [] ∧ outside = (next.stripBefore .regionEnd).1 :: later) ∨
    ∃ front last, last.hasAfter .regionEnd = true ∧ first :: rest = front ++ last :: outside ∧
      inside = front ++ [(last.stripAfter .regionEnd).1] := by
  rw [close_eq] at closed
  split at closed
  · rename_i hafter
    cases closed
    exact .inr ⟨[], first, hafter, rfl, rfl⟩
  · obtain ⟨⟨within, without⟩, hrest, hfound⟩ := Option.map_eq_some_iff.mp closed
    cases hfound
    rcases closeAmong_cases hrest with
      ⟨next, later, hends, hstmts, houtside⟩ | ⟨front, last, hends, hstmts, hinside⟩
    · exact .inl ⟨next, later, hends, by simp [hstmts], by simp, houtside⟩
    · exact .inr ⟨first :: front, last, hends, by simp [hstmts], by simp [hinside]⟩

theorem length_outside_lt {first : Stmt Action} {rest inside outside : List (Stmt Action)}
    (closed : close first rest = some (inside, outside)) :
    outside.length < (first :: rest).length := by
  rcases close_cases closed with
    ⟨next, later, -, hstmts, hinside, rfl⟩ | ⟨front, last, -, hstmts, rfl⟩
  · have hpositive := List.length_pos_iff.mpr hinside
    rw [hstmts]
    simp only [List.length_append, List.length_cons]
    omega
  · rw [hstmts]
    simp only [List.length_append, List.length_cons]
    omega

/-! ## One walk over the statements -/

/-- Each scan that finds a region leaves fewer statements. -/
theorem length_apply_lt_of_scan (block : Block Action) {stmts : List (Stmt Action)}
    {cut : Cut Action} (found : scan stmts = .found cut) :
    (cut.apply block).stmts.length < stmts.length := by
  induction stmts generalizing cut with
  | nil => cases found
  | cons stmt rest ih =>
      have later {other : Stmt Action}
          (hfound : (scan rest).addFront other = .found cut) :
          (cut.apply block).stmts.length < (stmt :: rest).length := by
        cases hrest : scan rest with
        | done stmts => simp [hrest, Scan.addFront] at hfound
        | found inner =>
            simp only [hrest, Scan.addFront, Scan.found.injEq] at hfound
            rw [← hfound, Cut.apply_addFront]
            simpa using ih hrest
      simp only [scan] at found
      split at found
      · split at found
        · rename_i inside outside hclosed
          cases found
          rw [Cut.length_apply]
          simpa using length_outside_lt hclosed
        · exact later found
      · exact later found

/-- Any number of scans above the number of statements gives the same result. -/
theorem removeUpTo_congr {fuel other : Nat} {block : Block Action}
    (enough : block.stmts.length < fuel) (enough' : block.stmts.length < other) :
    removeUpTo fuel block = removeUpTo other block := by
  induction fuel generalizing other block with
  | zero => exact absurd enough (Nat.not_lt_zero _)
  | succ fuel ih =>
      cases other with
      | zero => exact absurd enough' (Nat.not_lt_zero _)
      | succ other =>
          simp only [removeUpTo]
          split
          · rfl
          · rename_i cut hfound
            have hless := length_apply_lt_of_scan block hfound
            have later : removeUpTo fuel (cut.apply block) = removeUpTo other (cut.apply block) :=
              ih (by omega) (by omega)
            rw [later]

theorem removeUpTo_eq_remove {fuel : Nat} {block : Block Action}
    (enough : block.stmts.length < fuel) : removeUpTo fuel block = remove block :=
  removeUpTo_congr enough (Nat.lt_succ_self _)

/-- The result of a removal with one more statement in front. -/
def withFront (stmt : Stmt Action) (result : Block Action × List (List (Stmt Action))) :
    Block Action × List (List (Stmt Action)) :=
  ({ result.1 with stmts := stmt :: result.1.stmts }, result.2)

/-- Where no region opens at the first statement, all scans pass over it. -/
theorem removeUpTo_cons_of_not_hasBefore {stmt : Stmt Action}
    (shut : stmt.hasBefore .regionStart = false) (fuel : Nat) (block : Block Action) :
    removeUpTo fuel { block with stmts := stmt :: block.stmts } =
      withFront stmt (removeUpTo fuel block) := by
  induction fuel generalizing block with
  | zero => rfl
  | succ fuel ih =>
      simp only [removeUpTo, scan, shut]
      cases hscan : scan block.stmts with
      | done stmts => rfl
      | found cut =>
          simp only [Bool.false_eq_true, if_false, Scan.addFront]
          have hsame : (cut.addFront stmt).apply { block with stmts := stmt :: block.stmts } =
              { cut.apply block with stmts := stmt :: (cut.apply block).stmts } :=
            Cut.apply_addFront block cut stmt
          rw [hsame, ih (cut.apply block)]
          rfl

theorem remove_cons_of_not_hasBefore {stmt : Stmt Action}
    (shut : stmt.hasBefore .regionStart = false) (opening closing : Text)
    (rest : List (Stmt Action)) :
    remove ⟨opening, stmt :: rest, closing⟩ = withFront stmt (remove ⟨opening, rest, closing⟩) := by
  calc
    remove ⟨opening, stmt :: rest, closing⟩ =
        withFront stmt (removeUpTo (rest.length + 2) ⟨opening, rest, closing⟩) :=
      removeUpTo_cons_of_not_hasBefore shut (rest.length + 2) ⟨opening, rest, closing⟩
    _ = withFront stmt (remove ⟨opening, rest, closing⟩) := by
      rw [removeUpTo_eq_remove (by simp)]

/-- Where no region opens at the statements in front, the walk passes over them. -/
theorem remove_append_of_not_hasBefore {front : List (Stmt Action)}
    (shut : ∀ stmt ∈ front, stmt.hasBefore .regionStart = false) (opening closing : Text)
    (rest : List (Stmt Action)) :
    remove ⟨opening, front ++ rest, closing⟩ =
      let result := remove ⟨opening, rest, closing⟩
      ({ result.1 with stmts := front ++ result.1.stmts }, result.2) := by
  induction front with
  | nil => rfl
  | cons stmt later ih =>
      rw [List.forall_mem_cons] at shut
      rw [List.cons_append, remove_cons_of_not_hasBefore shut.1, withFront, ih shut.2]
      rfl

theorem marksBefore_openedAt (stmt : Stmt Action) :
    Marker.regionStart ∉ (openedAt stmt).marksBefore := by
  simp [openedAt, Stmt.not_mem_among_detach]

/-- No region opens at a statement once its start marker is dropped. -/
theorem hasBefore_openedAt (stmt : Stmt Action) :
    (openedAt stmt).hasBefore .regionStart = false := by
  rw [← Bool.not_eq_true, Stmt.hasBefore_iff]
  exact marksBefore_openedAt stmt

/-- A start marker without an end is dropped, and the walk goes on behind its
statement. -/
theorem remove_cons_of_not_close {stmt : Stmt Action} {rest : List (Stmt Action)}
    (opened : stmt.hasBefore .regionStart = true)
    (unclosed : close ((stmt.detach .regionStart).2.stripBefore .regionStart).1 rest = none)
    (opening closing : Text) :
    remove ⟨opening, stmt :: rest, closing⟩ =
      withFront (openedAt stmt) (remove ⟨opening, rest, closing⟩) := by
  -- A scan sees the same list, whether the start marker is still there or not.
  have hscan : scan (stmt :: rest) = scan (openedAt stmt :: rest) := by
    simp only [scan, opened, unclosed, hasBefore_openedAt]
    rfl
  rw [← remove_cons_of_not_hasBefore (hasBefore_openedAt stmt)]
  simp only [remove, List.length_cons, removeUpTo, hscan]
  rfl

/-- A region is cut out, and the walk goes on with what follows it. -/
theorem remove_cons_of_close {stmt : Stmt Action} {rest inside outside : List (Stmt Action)}
    (opened : stmt.hasBefore .regionStart = true)
    (closed : close ((stmt.detach .regionStart).2.stripBefore .regionStart).1 rest =
      some (inside, outside)) (opening closing : Text) :
    remove ⟨opening, stmt :: rest, closing⟩ =
      let cut : Cut Action := ⟨[], inside, (stmt.detach .regionStart).1, outside⟩
      let result := remove (Block.addAbove cut.moved ⟨opening, outside, closing⟩)
      (result.1, inside :: result.2) := by
  have hfound : scan (stmt :: rest) =
      .found ⟨[], inside, (stmt.detach .regionStart).1, outside⟩ := by
    simp only [scan, opened, closed, if_true]
  have hless := length_apply_lt_of_scan ⟨opening, stmt :: rest, closing⟩ hfound
  rw [remove, removeUpTo]
  simp only [hfound]
  rw [removeUpTo_eq_remove hless, Cut.apply_eq]
  rfl

/-- Induction along the walk over the statements of a block: a statement stays
as it is, loses a start marker without an end, or opens a region. -/
theorem remove_induction
    {motive : Block Action → Block Action × List (List (Stmt Action)) → Prop}
    (nil : ∀ opening closing, motive ⟨opening, [], closing⟩ (⟨opening, [], closing⟩, []))
    (keep : ∀ opening stmt rest closing result, stmt.hasBefore .regionStart = false →
      motive ⟨opening, rest, closing⟩ result →
        motive ⟨opening, stmt :: rest, closing⟩ (withFront stmt result))
    (drop : ∀ opening stmt rest closing result, stmt.hasBefore .regionStart = true →
      motive ⟨opening, rest, closing⟩ result →
        motive ⟨opening, stmt :: rest, closing⟩ (withFront (openedAt stmt) result))
    (cut : ∀ opening stmt rest closing inside outside result,
      stmt.hasBefore .regionStart = true →
      close ((stmt.detach .regionStart).2.stripBefore .regionStart).1 rest =
        some (inside, outside) →
      motive (Block.addAbove (Cut.mk [] inside (stmt.detach .regionStart).1 outside).moved
        ⟨opening, outside, closing⟩) result →
        motive ⟨opening, stmt :: rest, closing⟩ (result.1, inside :: result.2))
    (block : Block Action) : motive block (remove block) := by
  induction hlength : block.stmts.length using Nat.strongRecOn generalizing block with
  | ind length ih =>
      obtain ⟨opening, stmts, closing⟩ := block
      cases stmts with
      | nil => exact nil opening closing
      | cons stmt rest =>
          have hrest := ih rest.length (by simp [← hlength]) ⟨opening, rest, closing⟩ rfl
          by_cases opened : stmt.hasBefore .regionStart = true
          · cases closed :
              close ((stmt.detach .regionStart).2.stripBefore .regionStart).1 rest with
            | none =>
                rw [remove_cons_of_not_close opened closed]
                exact drop opening stmt rest closing _ opened hrest
            | some found =>
                obtain ⟨inside, outside⟩ := found
                rw [remove_cons_of_close opened closed]
                refine cut opening stmt rest closing inside outside _ opened closed ?_
                refine ih _ ?_ _ rfl
                rw [← hlength, Block.length_addAbove]
                simpa using length_outside_lt closed
          · rw [Bool.not_eq_true] at opened
            rw [remove_cons_of_not_hasBefore opened]
            exact keep opening stmt rest closing _ opened hrest

end Region

namespace Span

/-! ## Scans for spans -/

/-- The number of end markers on several statements. -/
def ends (stmts : List (Stmt Action)) : Nat :=
  (stmts.flatMap fun stmt => stmt.marksBefore ++ stmt.marksAfter).count .spanEnd

@[simp]
theorem ends_nil : ends ([] : List (Stmt Action)) = 0 := rfl

@[simp]
theorem ends_cons (stmt : Stmt Action) (rest : List (Stmt Action)) :
    ends (stmt :: rest) =
      stmt.marksBefore.count .spanEnd + stmt.marksAfter.count .spanEnd + ends rest := by
  simp [ends, Nat.add_assoc]

@[simp]
theorem ends_append (front back : List (Stmt Action)) :
    ends (front ++ back) = ends front + ends back := by
  simp [ends]

theorem count_among (marker : Marker) (entries : List Text) :
    (Marker.among entries).count marker =
      entries.countP fun entry => marker.isOn (Comment.body entry) := by
  induction entries with
  | nil => rfl
  | cons first rest ih =>
      simp only [Marker.among, Marker.isOn_eq_decide] at ih ⊢
      cases hkind : Marker.classify first with
      | none => simp [hkind, ih]
      | some other =>
          by_cases hother : other = marker
          · simp [hkind, hother, ih]
          · simp [hkind, hother, ih]

theorem endCount_eq (block : Block Action) : endCount block = ends block.stmts := by
  rw [endCount, ← count_among, Marker.among, List.filterMap_flatMap]
  simp only [List.filterMap_append]
  rfl

/-- Dropping markers of another kind leaves the end markers in place. -/
theorem count_filter_ne (marker : Marker) (other : marker ≠ .spanEnd) (marks : List Marker) :
    (marks.filter (· ≠ marker)).count .spanEnd = marks.count .spanEnd :=
  List.count_filter (by simpa using other.symm)

/-- The end markers that a cut leaves were not on the statements cut out. -/
theorem ends_apply_le (block : Block Action) (cut : Cut Action) :
    ends (cut.apply block).stmts ≤
      ends cut.front + (Marker.among cut.carried).count .spanEnd + ends cut.back := by
  have hmoved := cut.among_moved
  obtain ⟨front, removed, carried, back⟩ := cut
  cases back with
  | nil => simp [Cut.apply]
  | cons next later =>
      simp only at hmoved
      simp [Cut.apply, hmoved]
      omega

/-- Cutting out statements takes their end markers away. -/
theorem ends_cutOut_le (block : Block Action) (front inside back : List (Stmt Action)) :
    ends ((cutOut front inside back).apply block).stmts + ends (cutOut front inside back).removed ≤
      ends front + ends inside + ends back := by
  have hleft := ends_apply_le block (cutOut front inside back)
  cases inside with
  | nil => simpa [cutOut] using hleft
  | cons first rest =>
      obtain ⟨carried, left, hdetach, hbefore⟩ := first.detach_eq .spanStart
      have hmarks : first.marksBefore = Marker.among carried ++ Marker.among left := by
        rw [Stmt.marksBefore, ← hbefore, Marker.among_append]
      simp only [cutOut, hdetach, ends_cons, hmarks, List.count_append] at hleft ⊢
      simp only [Stmt.marksBefore, Stmt.marksAfter]
      omega

/-- A cut that ends with a marker behind its last statement takes the marker
away. -/
theorem ends_cutOut_lt (block : Block Action) (front inside back : List (Stmt Action))
    {stmt : Stmt Action} (ended : stmt.hasAfter .spanEnd = true) :
    ends ((cutOut front (inside ++ [stmt]) back).apply block).stmts <
      ends front + ends (inside ++ [stmt]) + ends back := by
  have hleft := ends_cutOut_le block front (inside ++ [stmt]) back
  obtain ⟨earlier, last, hremoved, hafter⟩ := cutOut_removed_last front inside back stmt
  have hpositive : 0 < stmt.marksAfter.count .spanEnd :=
    List.count_pos_iff.mpr (Stmt.hasAfter_iff.mp ended)
  have hlast : last.marksAfter = stmt.marksAfter := congrArg Marker.among hafter
  simp only [hremoved, ends_append, ends_cons, ends_nil, hlast] at hleft ⊢
  omega

/-- Dropping the end markers above a statement leaves fewer of them. -/
theorem count_stripBefore_lt {stmt : Stmt Action} (ended : stmt.hasBefore .spanEnd = true) :
    (stmt.stripBefore .spanEnd).1.marksBefore.count .spanEnd <
      stmt.marksBefore.count .spanEnd := by
  have hpositive : 0 < stmt.marksBefore.count .spanEnd :=
    List.count_pos_iff.mpr (Stmt.hasBefore_iff.mp ended)
  have hnone : (stmt.stripBefore .spanEnd).1.marksBefore.count .spanEnd = 0 := by
    rw [List.count_eq_zero]
    simp
  omega

/-- Whether a scan has found something to remove. -/
def Scan.isDone : Scan Action → Bool
  | .done _ => true
  | _ => false

/-- Each scan that finds something leaves fewer end markers. -/
theorem ends_applyTo_lt (block : Block Action) (front inside rest : List (Stmt Action))
    (found : (scanFrom front inside rest).1.isDone = false) :
    ends ((scanFrom front inside rest).1.applyTo block).stmts <
      ends (front ++ inside ++ rest) := by
  induction rest generalizing front inside with
  | nil => simp [scanFrom, Scan.isDone] at found
  | cons stmt rest ih =>
      obtain ⟨front', inside', hjoin, hscan⟩ := scanFrom_cons front inside stmt rest
      rw [hscan] at found ⊢
      rw [← hjoin]
      by_cases hbefore : stmt.hasBefore .spanEnd = true
      · have hclear := count_stripBefore_lt hbefore
        rw [if_pos hbefore]
        split
        · rename_i hempty
          have hstart := count_filter_ne .spanStart (by simp)
            (stmt.stripBefore .spanEnd).1.marksBefore
          rw [List.isEmpty_iff] at hempty
          simp only [Scan.applyTo, hempty, ends_append, ends_cons, ends_nil,
            Stmt.marksBefore_stripBefore, Stmt.marksAfter_stripBefore] at hclear hstart ⊢
          omega
        · have hcut := ends_cutOut_le block front' inside' ((stmt.stripBefore .spanEnd).1 :: rest)
          simp only [Scan.applyTo, ends_append, ends_cons, Stmt.marksAfter_stripBefore] at hcut ⊢
          omega
      · rw [if_neg hbefore] at found ⊢
        by_cases hafter : stmt.hasAfter .spanEnd = true
        · have hcut := ends_cutOut_lt block front' inside' rest hafter
          rw [if_pos hafter]
          simp only [Scan.applyTo, ends_append, ends_cons, ends_nil] at hcut ⊢
          omega
        · rw [if_neg hafter] at found ⊢
          by_cases htagged : stmt.hasBefore .instrumented = true
          · rw [if_pos htagged] at found ⊢
            have later := ih front' (inside' ++ [(stmt.strip .instrumented).1]) found
            have htag := count_filter_ne .instrumented (by simp)
            simp only [ends_append, ends_cons, ends_nil, Stmt.marksBefore_strip,
              Stmt.marksAfter_strip, htag] at later ⊢
            omega
          · rw [if_neg htagged] at found ⊢
            have later := ih front' (inside' ++ [stmt]) found
            simp only [ends_append, ends_cons, ends_nil] at later ⊢
            omega

/-- Any number of scans above the number of end markers gives the same result. -/
theorem removeUpTo_congr {fuel other : Nat} {block : Block Action}
    (enough : ends block.stmts < fuel) (enough' : ends block.stmts < other) :
    removeUpTo fuel block = removeUpTo other block := by
  induction fuel generalizing other block with
  | zero => exact absurd enough (Nat.not_lt_zero _)
  | succ fuel ih =>
      cases other with
      | zero => exact absurd enough' (Nat.not_lt_zero _)
      | succ other =>
          have hless : (scan block.stmts).1.isDone = false →
              ends ((scan block.stmts).1.applyTo block).stmts < ends block.stmts :=
            ends_applyTo_lt block [] [] block.stmts
          have later (next : Block Action) (hfewer : ends next.stmts < ends block.stmts) :
              removeUpTo fuel next = removeUpTo other next :=
            ih (by omega) (by omega)
          simp only [removeUpTo]
          split
          · rfl
          · rename_i stmts tags hhollow
            rw [hhollow] at hless
            rw [later { block with stmts := stmts } (hless rfl)]
          · rename_i cut tags hfound
            rw [hfound] at hless
            rw [later (cut.apply block) (hless rfl)]

/-- The block that is left when a scan finds nothing more, or else what is left
after the next scans. -/
theorem remove_fst (block : Block Action) :
    (remove block).1 =
      if (scan block.stmts).1.isDone then (scan block.stmts).1.applyTo block
      else (remove ((scan block.stmts).1.applyTo block)).1 := by
  have hless : (scan block.stmts).1.isDone = false →
      ends ((scan block.stmts).1.applyTo block).stmts < ends block.stmts :=
    ends_applyTo_lt block [] [] block.stmts
  have later (next : Block Action) (hfewer : ends next.stmts < ends block.stmts) :
      removeUpTo (ends block.stmts) next = remove next := by
    rw [remove, endCount_eq]
    exact removeUpTo_congr hfewer (Nat.lt_succ_self _)
  conv => lhs; rw [remove, endCount_eq, removeUpTo]
  cases hscan : scan block.stmts with
  | mk found tags =>
      rw [hscan] at hless
      cases found with
      | done stmts => rfl
      | hollow stmts =>
          simp only [later { block with stmts := stmts } (hless rfl)]
          rfl
      | found cut =>
          simp only [later (cut.apply block) (hless rfl)]
          rfl

/-- Induction over the scans of a block, from the last one back to the first. -/
theorem remove_induction {motive : Block Action → Block Action → Prop}
    (done : ∀ block stmts tags, scan block.stmts = (.done stmts, tags) →
      motive block { block with stmts := stmts })
    (more : ∀ block result, motive ((scan block.stmts).1.applyTo block) result →
      motive block result)
    (block : Block Action) : motive block (remove block).1 := by
  induction hends : ends block.stmts using Nat.strongRecOn generalizing block with
  | ind count ih =>
      rw [remove_fst]
      split
      · rename_i hdone
        cases hscan : scan block.stmts with
        | mk found tags =>
            rw [hscan] at hdone
            cases found with
            | done stmts => exact done block stmts tags hscan
            | hollow stmts => cases hdone
            | found cut => cases hdone
      · rename_i hfound
        rw [Bool.not_eq_true] at hfound
        have hless := ends_applyTo_lt block [] [] block.stmts hfound
        exact more block _ (ih _ (hends ▸ hless) _ rfl)

end Span

end Deinstrument
