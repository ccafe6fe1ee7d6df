import Deinstrument.Proofs.Rescan

/-!
# Starting again and going on

Regions can be removed by a loop that walks along the statements of a block by
their index. When it has removed a region, it may start again from the top or
go on at the index where the region began. The statements in front of that
index open no region and no removal behind them changes them, so the scans
that start again find the same regions in the same order as the loop that goes
on, and both leave the same block.
-/

namespace Deinstrument.Region

variable {Action State : Type}

/-- What a loop has done when it ends: the block that is left, the state of
whoever is told about the regions, and the number of regions. -/
structure Pass (Action State : Type) where
  block : Block Action
  state : State
  count : Nat
  deriving Repr, DecidableEq

/-- Remove regions from the statement at `index` on. Each removed region is
told to `onRegion`, and the loop resumes at an index chosen by `resume` from
the index at which the region began. -/
def loop (resume : Nat → Nat) (onRegion : State → List (Stmt Action) → State) (index : Nat)
    (block : Block Action) (state : State) : Pass Action State :=
  match hstmts : block.stmts.drop index with
  | [] => ⟨block, state, 0⟩
  | stmt :: rest =>
      if stmt.hasBefore .regionStart then
        match hclosed : close ((stmt.detach .regionStart).2.stripBefore .regionStart).1 rest with
        | some (inside, outside) =>
            let cut : Cut Action :=
              ⟨block.stmts.take index, inside, (stmt.detach .regionStart).1, outside⟩
            let later := loop resume onRegion (resume index) (cut.apply block)
              (onRegion state inside)
            { later with count := later.count + 1 }
        | none =>
            loop resume onRegion (index + 1)
              { block with stmts := block.stmts.take index ++ openedAt stmt :: rest } state
      else loop resume onRegion (index + 1) block state
termination_by (block.stmts.length, block.stmts.length - index)
decreasing_by
  -- A removal leaves fewer statements; otherwise as many, with fewer of them ahead.
  · have hlength := congrArg List.length hstmts
    have hless := length_outside_lt hclosed
    refine Prod.Lex.left _ _ ?_
    rw [Cut.length_apply]
    simp only [List.length_drop, List.length_take, List.length_cons] at hlength hless ⊢
    omega
  · have hlength := congrArg List.length hstmts
    simp only [List.length_drop, List.length_cons, List.length_append, List.length_take]
      at hlength ⊢
    have hsame : min index block.stmts.length + (rest.length + 1) = block.stmts.length := by omega
    rw [hsame]
    exact Prod.Lex.right _ (by omega)
  · have hlength := congrArg List.length hstmts
    simp only [List.length_drop, List.length_cons] at hlength
    exact Prod.Lex.right _ (by omega)

/-- The loop that scans from the top after each removal. -/
def loopFromTop (onRegion : State → List (Stmt Action) → State) : Block Action → State →
    Pass Action State :=
  loop (fun _ => 0) onRegion 0

/-- The loop that goes on where the removed region began. -/
def loopInPlace (onRegion : State → List (Stmt Action) → State) : Block Action → State →
    Pass Action State :=
  loop id onRegion 0

/-- The pass of a removal whose regions are told to `onRegion` in order. -/
def Pass.ofRemoval (onRegion : State → List (Stmt Action) → State) (state : State)
    (removal : Block Action × List (List (Stmt Action))) : Pass Action State :=
  ⟨removal.1, removal.2.foldl onRegion state, removal.2.length⟩

/-! ## What a step does to a removal -/

section Step

variable (opening closing : Text) {front rest inside outside : List (Stmt Action)}
  {stmt : Stmt Action}

/-- A start marker without an end can be dropped before the regions are removed. -/
theorem remove_openedAt (shut : ∀ earlier ∈ front, earlier.hasBefore .regionStart = false)
    (opened : stmt.hasBefore .regionStart = true)
    (unclosed : close ((stmt.detach .regionStart).2.stripBefore .regionStart).1 rest = none) :
    remove ⟨opening, front ++ openedAt stmt :: rest, closing⟩ =
      remove ⟨opening, front ++ stmt :: rest, closing⟩ := by
  have hstmt : remove ⟨opening, openedAt stmt :: rest, closing⟩ =
      remove ⟨opening, stmt :: rest, closing⟩ := by
    rw [remove_cons_of_not_close opened unclosed,
      remove_cons_of_not_hasBefore (hasBefore_openedAt stmt)]
  rw [remove_append_of_not_hasBefore shut, remove_append_of_not_hasBefore shut, hstmt]

/-- The first region can be cut out before the others are removed. -/
theorem remove_cut (shut : ∀ earlier ∈ front, earlier.hasBefore .regionStart = false)
    (opened : stmt.hasBefore .regionStart = true)
    (closed : close ((stmt.detach .regionStart).2.stripBefore .regionStart).1 rest =
      some (inside, outside)) :
    let block : Block Action := ⟨opening, front ++ stmt :: rest, closing⟩
    let cut : Cut Action := ⟨front, inside, (stmt.detach .regionStart).1, outside⟩
    remove block = ((remove (cut.apply block)).1, inside :: (remove (cut.apply block)).2) := by
  intro block cut
  let behind := Block.addAbove cut.moved ⟨opening, outside, closing⟩
  have hcut : cut.apply block = ⟨behind.opening, front ++ behind.stmts, behind.closing⟩ :=
    Cut.apply_eq block cut
  have hfirst : remove ⟨opening, stmt :: rest, closing⟩ =
      ((remove behind).1, inside :: (remove behind).2) :=
    remove_cons_of_close opened closed opening closing
  rw [hcut, remove_append_of_not_hasBefore shut, remove_append_of_not_hasBefore shut, hfirst]

end Step

/-! ## What the loops do -/

theorem eq_of_drop {block : Block Action} {index : Nat} {stmt : Stmt Action}
    {rest : List (Stmt Action)} (hstmts : block.stmts.drop index = stmt :: rest) :
    block = ⟨block.opening, block.stmts.take index ++ stmt :: rest, block.closing⟩ := by
  rw [← hstmts, List.take_append_drop]

/-- A loop that does not resume behind the place of a removed region removes all
regions, as long as no region opens in front of its index. -/
theorem loop_eq_ofRemoval {resume : Nat → Nat} (back : ∀ index, resume index ≤ index)
    (onRegion : State → List (Stmt Action) → State) (index : Nat) (block : Block Action)
    (state : State) (shut : ∀ stmt ∈ block.stmts.take index, stmt.hasBefore .regionStart = false) :
    loop resume onRegion index block state = Pass.ofRemoval onRegion state (remove block) := by
  fun_induction loop resume onRegion index block state with
  | case1 index block state hstmts =>
      rw [List.take_of_length_le (List.drop_eq_nil_iff.mp hstmts)] at shut
      have clear : opens block.stmts = false := by simpa [opens] using shut
      rw [remove_of_not_opens clear]
      rfl
  | case2 index block state stmt rest hstmts opened inside outside hclosed cut later ih =>
      have hremove : remove block =
          ((remove (cut.apply block)).1, inside :: (remove (cut.apply block)).2) := by
        have hcut := remove_cut block.opening block.closing shut opened hclosed
        rwa [← eq_of_drop hstmts] at hcut
      -- The loop resumes among the statements in front of the removed region.
      have hfront : (cut.apply block).stmts.take (resume index) =
          (block.stmts.take index).take (resume index) := by
        have hindex : resume index ≤ (block.stmts.take index).length := by
          have hlength := congrArg List.length hstmts
          have := back index
          simp only [List.length_drop, List.length_cons, List.length_take] at hlength ⊢
          omega
        rw [Cut.apply_eq]
        exact List.take_append_of_le_length hindex
      have hlater : later = _ := ih fun earlier member =>
        shut earlier (List.mem_of_mem_take (hfront ▸ member))
      rw [hlater, hremove]
      rfl
  | case3 index block state stmt rest hstmts opened hclosed ih =>
      have hremove := remove_openedAt block.opening block.closing shut opened hclosed
      rw [← eq_of_drop hstmts] at hremove
      rw [ih, hremove]
      intro earlier member
      have hindex : (block.stmts.take index).length = index := by
        have hlength := congrArg List.length hstmts
        simp only [List.length_drop, List.length_cons, List.length_take] at hlength ⊢
        omega
      simp only [List.take_append, hindex, Nat.add_sub_cancel_left, List.take_succ_cons,
        List.take_zero, List.mem_append, List.mem_singleton] at member
      rcases member with member | rfl
      · exact shut earlier (List.mem_of_mem_take member)
      · exact hasBefore_openedAt stmt
  | case4 index block state stmt rest hstmts hshut ih =>
      refine ih fun earlier member => ?_
      have hstmt : block.stmts[index]? = some stmt := by
        rw [← List.head?_drop, hstmts]
        rfl
      rw [List.take_add_one, hstmt, List.mem_append] at member
      rcases member with member | member
      · exact shut earlier member
      · rw [List.mem_singleton.mp member]
        exact Bool.not_eq_true _ ▸ hshut

/-- Starting again from the top after each removal makes no difference: the
loop that does so and the one that goes on where the removed region began leave
the same block, tell of the same regions in the same order, and count as many.
They leave what the removal of the regions leaves, and tell of its regions. -/
theorem loopFromTop_eq_loopInPlace (onRegion : State → List (Stmt Action) → State)
    (block : Block Action) (state : State) :
    loopFromTop onRegion block state = loopInPlace onRegion block state ∧
      loopInPlace onRegion block state =
        ⟨(remove block).1, (remove block).2.foldl onRegion state, (remove block).2.length⟩ := by
  have clear : ∀ stmt ∈ block.stmts.take 0, stmt.hasBefore .regionStart = false := by simp
  have top : loopFromTop onRegion block state = Pass.ofRemoval onRegion state (remove block) :=
    loop_eq_ofRemoval (fun _ => Nat.zero_le _) onRegion 0 block state clear
  have inPlace : loopInPlace onRegion block state =
      Pass.ofRemoval onRegion state (remove block) :=
    loop_eq_ofRemoval (fun _ => Nat.le_refl _) onRegion 0 block state clear
  exact ⟨top.trans inPlace.symm, inPlace⟩

end Deinstrument.Region
