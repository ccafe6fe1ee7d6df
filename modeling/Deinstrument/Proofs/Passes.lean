import Deinstrument.Proofs.SpanSequences

/-!
# Scans for spans come to an end

The spans of a block are removed by scans, each up to the first end marker, until
one finds none. Some scans take no statement away, and comments that move may
bring markers with them, but every scan drops an end marker and none adds one. So
there is at most one scan more than there are end markers, whatever markers stand
where, and each scan leaves some of the statements in their order.
-/

namespace Deinstrument

variable {Action : Type}

/-! ## Fewer statements -/

namespace Stmt

/-- Statements that are some of others, in their order, with nothing changed but
comments and blanks. -/
def Among (original stmts : List (Stmt Action)) : Prop :=
  List.SublistForall₂ SameAs stmts original

namespace Among

instance : @Std.Refl (Stmt Action) SameAs := ⟨.refl⟩

theorem of_sublist {original stmts : List (Stmt Action)} (sublist : List.Sublist stmts original) :
    Among original stmts :=
  sublist.sublistForall₂

theorem trans {original middle stmts : List (Stmt Action)} (early : Among original middle)
    (late : Among middle stmts) : Among original stmts :=
  List.SublistForall₂.is_trans.trans stmts middle original late early

/-- One statement that changes between others. -/
theorem change {stmt changed : Stmt Action} (same : SameAs changed stmt)
    (front back : List (Stmt Action)) :
    Among (front ++ stmt :: back) (front ++ changed :: back) := by
  refine List.sublistForall₂_iff.mpr ⟨_, ?_, .refl _⟩
  exact List.rel_append (List.forall₂_refl front) (.cons same (List.forall₂_refl back))

end Among

end Stmt

/-- A cut leaves the statements on either side of what it takes away. -/
theorem Cut.among_apply (block : Block Action) (cut : Cut Action) :
    Stmt.Among (cut.front ++ cut.back) (cut.apply block).stmts := by
  obtain ⟨front, removed, carried, back⟩ := cut
  cases back with
  | nil => exact .of_sublist (List.sublist_append_left front [])
  | cons next later =>
      have same (moved : List Text) : Stmt.SameAs (next.attach moved) next := ⟨rfl, rfl, rfl⟩
      exact .change (same _) front later

namespace Span

theorem cutOut_among (block : Block Action) (front inside back : List (Stmt Action)) :
    Stmt.Among (front ++ inside ++ back) ((cutOut front inside back).apply block).stmts := by
  have hsides : (cutOut front inside back).front = front ∧
      (cutOut front inside back).back = back := by
    cases inside <;> exact ⟨rfl, rfl⟩
  have hleft := (cutOut front inside back).among_apply block
  rw [hsides.1, hsides.2] at hleft
  refine (Stmt.Among.of_sublist ?_).trans hleft
  exact (List.sublist_append_left front inside).append (.refl back)

/-- A scan leaves some of the statements, in their order. -/
theorem scanFrom_among (block : Block Action) (front inside rest : List (Stmt Action)) :
    Stmt.Among (front ++ inside ++ rest)
      ((scanFrom front inside rest).1.applyTo block).stmts := by
  induction rest generalizing front inside with
  | nil => exact .of_sublist (List.sublist_append_left (front ++ inside) [])
  | cons stmt rest ih =>
      obtain ⟨front', inside', hjoin, hscan⟩ := scanFrom_cons front inside stmt rest
      rw [hscan, ← hjoin]
      by_cases hbefore : stmt.hasBefore .spanEnd = true
      · have hclear : Stmt.SameAs (stmt.stripBefore .spanEnd).1 stmt := ⟨rfl, rfl, rfl⟩
        rw [if_pos hbefore]
        split
        · rename_i hempty
          have hboth : Stmt.SameAs
              ((stmt.stripBefore .spanEnd).1.stripBefore .spanStart).1 stmt := ⟨rfl, rfl, rfl⟩
          rw [List.isEmpty_iff.mp hempty, List.append_nil]
          exact .change hboth front' rest
        · exact (Stmt.Among.change hclear (front' ++ inside') rest).trans
            (cutOut_among block front' inside' _)
      · rw [if_neg hbefore]
        by_cases hafter : stmt.hasAfter .spanEnd = true
        · rw [if_pos hafter]
          have hcut := cutOut_among block front' (inside' ++ [stmt]) rest
          rw [← List.append_assoc, List.append_assoc, List.singleton_append] at hcut
          exact hcut
        · rw [if_neg hafter]
          by_cases htagged : stmt.hasBefore .instrumented = true
          · have huntag : Stmt.SameAs (stmt.strip .instrumented).1 stmt := ⟨rfl, rfl, rfl⟩
            have later := ih front' (inside' ++ [(stmt.strip .instrumented).1])
            rw [if_pos htagged]
            refine (Stmt.Among.change huntag (front' ++ inside') rest).trans ?_
            simpa using later
          · have later := ih front' (inside' ++ [stmt])
            rw [if_neg htagged]
            simpa using later

/-! ## Scan after scan -/

/-- The scans of a block, one after the other up to the first that finds nothing:
their number, the block that they leave and what they count. -/
inductive Scans : Block Action → Nat → Block Action → Counts → Prop
  | last {block : Block Action} {stmts : List (Stmt Action)} {tags : Nat}
      (scanned : scan block.stmts = (.done stmts, tags)) :
      Scans block 1 { block with stmts := stmts } ⟨0, tags⟩
  | more {block final : Block Action} {found : Scan Action} {tags number : Nat} {counts : Counts}
      (scanned : scan block.stmts = (found, tags)) (unfinished : found.isDone = false)
      (later : Scans (found.applyTo block) number final counts) :
      Scans block (number + 1) final ⟨counts.spans + found.spanCount, tags + counts.tags⟩

namespace Scans

variable {block final : Block Action} {number : Nat} {counts : Counts}

/-- The block decides how many scans there are, what they leave and what they
count. -/
theorem unique {number' : Nat} {final' : Block Action} {counts' : Counts}
    (scans : Scans block number final counts) (scans' : Scans block number' final' counts') :
    number' = number ∧ final' = final ∧ counts' = counts := by
  induction scans generalizing number' final' counts' with
  | last scanned =>
      cases scans' with
      | last scanned' =>
          cases scanned.symm.trans scanned'
          exact ⟨rfl, rfl, rfl⟩
      | more scanned' unfinished =>
          cases scanned.symm.trans scanned'
          cases unfinished
  | more scanned unfinished later ih =>
      cases scans' with
      | last scanned' =>
          cases scanned.symm.trans scanned'
          cases unfinished
      | more scanned' unfinished' later' =>
          cases scanned.symm.trans scanned'
          obtain ⟨rfl, rfl, rfl⟩ := ih later'
          exact ⟨rfl, rfl, rfl⟩

/-- The last scan counts no span, and each of the others one at most. -/
theorem spans_lt (scans : Scans block number final counts) : counts.spans < number := by
  induction scans with
  | last scanned => exact Nat.one_pos
  | @more block final found tags number counts scanned unfinished later ih =>
      have hone : found.spanCount ≤ 1 := by cases found <;> simp [Scan.spanCount]
      exact Nat.add_lt_add_of_lt_of_le ih hone

/-- Each scan but the last one drops an end marker. -/
theorem number_le (scans : Scans block number final counts) :
    number ≤ ends block.stmts + 1 := by
  induction scans with
  | last scanned => exact Nat.le_add_left 1 _
  | @more block final found tags number counts scanned unfinished later ih =>
      have hless : (scan block.stmts).1.isDone = false →
          ends ((scan block.stmts).1.applyTo block).stmts < ends block.stmts :=
        ends_applyTo_lt block [] [] block.stmts
      rw [scanned] at hless
      exact Nat.succ_le_succ (Nat.le_trans ih (hless unfinished))

/-- What is left are some of the statements, in their order. -/
theorem among (scans : Scans block number final counts) :
    Stmt.Among block.stmts final.stmts := by
  induction scans with
  | @last block stmts tags scanned =>
      have hscan : Stmt.Among block.stmts ((scan block.stmts).1.applyTo block).stmts :=
        scanFrom_among block [] [] block.stmts
      rw [scanned] at hscan
      exact hscan
  | @more block final found tags number counts scanned unfinished later ih =>
      have hscan : Stmt.Among block.stmts ((scan block.stmts).1.applyTo block).stmts :=
        scanFrom_among block [] [] block.stmts
      rw [scanned] at hscan
      exact hscan.trans ih

end Scans

/-- With as many scans as there are end markers, and one more, the last one finds
nothing. -/
theorem exists_scans {fuel : Nat} {block : Block Action} (enough : ends block.stmts < fuel) :
    ∃ number, Scans block number (removeUpTo fuel block).1 (removeUpTo fuel block).2 := by
  induction fuel generalizing block with
  | zero => exact absurd enough (Nat.not_lt_zero _)
  | succ fuel ih =>
      have hless : (scan block.stmts).1.isDone = false →
          ends ((scan block.stmts).1.applyTo block).stmts < ends block.stmts :=
        ends_applyTo_lt block [] [] block.stmts
      simp only [removeUpTo]
      split
      · rename_i stmts tags hdone
        exact ⟨1, .last hdone⟩
      · rename_i stmts tags hhollow
        rw [hhollow] at hless
        obtain ⟨number, later⟩ := ih (Nat.lt_of_lt_of_le (hless rfl) (Nat.le_of_lt_succ enough))
        exact ⟨number + 1, .more hhollow rfl later⟩
      · rename_i cut tags hfound
        rw [hfound] at hless
        obtain ⟨number, later⟩ := ih (Nat.lt_of_lt_of_le (hless rfl) (Nat.le_of_lt_succ enough))
        exact ⟨number + 1, .more hfound rfl later⟩

/-- Removing spans is scanning until a scan finds nothing, which takes at most one
scan more than there are end markers. There are at most as many spans as end
markers, and what is left are some of the statements, in their order. -/
theorem remove_terminates (block : Block Action) :
    (∃ number ≤ endCount block + 1, ∀ scans final counts,
      Scans block scans final counts ↔ scans = number ∧ (final, counts) = remove block) ∧
    (remove block).2.spans ≤ endCount block ∧
    List.SublistForall₂ Stmt.SameAs (remove block).1.stmts block.stmts := by
  obtain ⟨number, hscans⟩ : ∃ number, Scans block number (remove block).1 (remove block).2 := by
    refine exists_scans ?_
    rw [endCount_eq]
    exact Nat.lt_succ_self _
  have hnumber := hscans.number_le
  rw [← endCount_eq] at hnumber
  refine ⟨⟨number, hnumber, ?_⟩, ?_, hscans.among⟩
  · intro scans final counts
    constructor
    · intro others
      obtain ⟨rfl, rfl, rfl⟩ := hscans.unique others
      exact ⟨rfl, rfl⟩
    · rintro ⟨rfl, hresult⟩
      rw [← hresult] at hscans
      exact hscans
  · exact Nat.le_of_lt_succ (Nat.lt_of_lt_of_le hscans.spans_lt hnumber)

end Span

end Deinstrument
