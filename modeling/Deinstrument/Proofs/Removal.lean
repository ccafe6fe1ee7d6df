import Deinstrument.Proofs.Deletion
import Deinstrument.Region
import Deinstrument.Span

/-!
# Removing regions and spans deletes text

One scan of a block finds something to remove or nothing, and what it finds is
deleted text. A scan that meets a marker on which it acts deletes at least one
character, and one that meets none leaves the block as it is. Both facts carry
over to all scans of a block.
-/

namespace Deinstrument

open Text (Deletion)

variable {Action : Type} (action : Action → Text)

/-- A deletion at one statement is a deletion in the block around it. -/
theorem Stmt.replace_deletion {least : Nat} {changed stmt : Stmt Action}
    (deletion : Deletion least (changed.print action) (stmt.print action))
    (opening : Text) (front rest : List (Stmt Action)) (closing : Text) :
    Deletion least (opening ++ Stmt.printAll action (front ++ changed :: rest) ++ closing)
      (opening ++ Stmt.printAll action (front ++ stmt :: rest) ++ closing) := by
  have whole := deletion.within (opening ++ Stmt.printAll action front)
    (Stmt.printAll action rest ++ closing)
  exact whole.of_eq (by simp) (by simp)

theorem Block.print_eq (block : Block Action) :
    block.print action = block.opening ++ Stmt.printAll action block.stmts ++ block.closing :=
  rfl

/-! ## Regions -/

namespace Region

/-- Whether a region opens at one of several statements. -/
def opens (stmts : List (Stmt Action)) : Bool :=
  stmts.any fun stmt => stmt.hasBefore .regionStart

/-- The block that a scan leaves. -/
def Scan.applyTo (block : Block Action) : Scan Action → Block Action
  | .done stmts => { block with stmts := stmts }
  | .found cut => cut.apply block

/-- A statement in front of a scanned list joins the opening text. -/
theorem Scan.print_applyTo_addFront (block : Block Action) (stmt : Stmt Action)
    (scan : Scan Action) :
    ((scan.addFront stmt).applyTo block).print action =
      (scan.applyTo { block with opening := block.opening ++ stmt.print action }).print
        action := by
  cases scan with
  | done stmts => simp [addFront, applyTo, Block.print_eq]
  | found cut =>
      obtain ⟨front, removed, carried, back⟩ := cut
      cases back with
      | nil => simp [addFront, applyTo, Cut.addFront, Cut.apply, Block.print_eq, Cut.moved]
      | cons next later =>
          simp [addFront, applyTo, Cut.addFront, Cut.apply, Block.print_eq, Cut.moved]

theorem closeAmong_deletion {stmts inside outside : List (Stmt Action)}
    (closed : closeAmong stmts = some (inside, outside)) :
    Deletion 0 (Stmt.printAll action inside ++ Stmt.printAll action outside)
      (Stmt.printAll action stmts) := by
  induction stmts generalizing inside outside with
  | nil => cases closed
  | cons stmt rest ih =>
      simp only [closeAmong] at closed
      split at closed
      · cases closed
        have habove := (Stmt.stripBefore_deletion action stmt .regionEnd).mono (Nat.zero_le _)
        exact (habove.append (.refl (Stmt.printAll action rest))).of_eq (by simp) (by simp)
      · split at closed
        · cases closed
          have hbehind := Stmt.stripAfter_deletion action stmt .regionEnd
          exact (hbehind.append (.refl (Stmt.printAll action rest))).of_eq (by simp) (by simp)
        · split at closed
          · rename_i within without hrest
            cases closed
            exact ((Deletion.refl (stmt.print action)).append (ih hrest)).of_eq
              (by simp) (by simp)
          · cases closed

theorem close_deletion {first : Stmt Action} {rest inside outside : List (Stmt Action)}
    (closed : close first rest = some (inside, outside)) :
    Deletion 0 (Stmt.printAll action inside ++ Stmt.printAll action outside)
      (first.print action ++ Stmt.printAll action rest) := by
  simp only [close] at closed
  split at closed
  · cases closed
    have hbehind := Stmt.stripAfter_deletion action first .regionEnd
    exact (hbehind.append (.refl (Stmt.printAll action rest))).of_eq (by simp) rfl
  · split at closed
    · rename_i within without hrest
      cases closed
      exact ((Deletion.refl (first.print action)).append (closeAmong_deletion action hrest)).of_eq
        (by simp) rfl
    · cases closed

/-- The statement at which a region opens, without its start marker. The
comments above the marker stay. -/
def openedAt (stmt : Stmt Action) : Stmt Action :=
  ((stmt.detach .regionStart).2.stripBefore .regionStart).1.attach
    (stmt.detach .regionStart).1

theorem openedAt_deletion {stmt : Stmt Action} (opened : stmt.hasBefore .regionStart = true) :
    Deletion 1 ((openedAt stmt).print action) (stmt.print action) := by
  have hstrip := Stmt.stripBefore_deletion action (stmt.detach .regionStart).2 .regionStart
  have hpositive := Stmt.stripBefore_pos (Stmt.hasBefore_detach opened)
  have whole := (Deletion.refl (stmt.detach .regionStart).1.flatten).append hstrip
  refine (whole.mono (by omega)).of_eq ?_ ?_
  · rw [openedAt, Stmt.print_attach]
  · exact (Stmt.detach_print action stmt .regionStart).symm

/-- Cutting out a region deletes text from the statements at which it opens. -/
theorem cut_deletion (block : Block Action) (carried : List Text) {first : Stmt Action}
    {rest inside outside : List (Stmt Action)}
    (closed : close first rest = some (inside, outside)) :
    Deletion 0 (((Cut.mk [] inside carried outside).apply block).print action)
      (block.opening ++ Stmt.printAll action (first.attach carried :: rest) ++
        block.closing) := by
  have hcut := Cut.apply_deletion action
    (Cut.moved_deletion action ⟨[], inside, carried, outside⟩) block
  have hclose := (Deletion.refl carried.flatten).append (close_deletion action closed)
  exact hcut.trans ((hclose.within block.opening block.closing).of_eq
    (by simp [Cut.text]) (by simp))

/-- A scan deletes text, and a start marker does not survive it. -/
theorem scan_deletion (block : Block Action) (stmts : List (Stmt Action)) :
    Deletion (opens stmts).toNat (((scan stmts).applyTo block).print action)
      (block.opening ++ Stmt.printAll action stmts ++ block.closing) := by
  induction stmts generalizing block with
  | nil => exact .refl _
  | cons stmt rest ih =>
      by_cases hopened : stmt.hasBefore .regionStart = true
      · have hmarker := Stmt.replace_deletion action (openedAt_deletion action hopened)
          block.opening [] rest block.closing
        have hopens : (opens (stmt :: rest)).toNat = 1 := by simp [opens, hopened]
        simp only [scan, hopened, if_true]
        rw [hopens]
        split
        · rename_i inside outside hclosed
          exact (cut_deletion action block _ hclosed).trans hmarker
        · rw [Scan.print_applyTo_addFront]
          have later := (ih { block with
            opening := block.opening ++ (openedAt stmt).print action }).mono (Nat.zero_le _)
          exact (later.of_eq rfl (by simp)).trans hmarker
      · have hopens : opens (stmt :: rest) = opens rest := by simp [opens, hopened]
        simp only [scan, hopened]
        rw [hopens]
        exact (ih { block with opening := block.opening ++ stmt.print action }).of_eq
          (Scan.print_applyTo_addFront action block stmt (scan rest)) (by simp)

/-- One more scan before scans that delete text. -/
theorem removeUpTo_succ_deletion {fuel : Nat}
    (later : ∀ block : Block Action,
      Deletion 0 ((removeUpTo fuel block).1.print action) (block.print action))
    (block : Block Action) :
    Deletion (opens block.stmts).toNat ((removeUpTo (fuel + 1) block).1.print action)
      (block.print action) := by
  have hscan := scan_deletion action block block.stmts
  simp only [removeUpTo]
  split
  · rename_i stmts hdone
    rw [hdone] at hscan
    exact hscan
  · rename_i cut hfound
    rw [hfound] at hscan
    exact (later (cut.apply block)).trans hscan

theorem removeUpTo_deletion (fuel : Nat) (block : Block Action) :
    Deletion 0 ((removeUpTo fuel block).1.print action) (block.print action) := by
  induction fuel generalizing block with
  | zero => exact .refl _
  | succ fuel ih => exact (removeUpTo_succ_deletion action ih block).mono (Nat.zero_le _)

/-- Removing regions deletes text, and something if a region opens. -/
theorem remove_deletion (block : Block Action) :
    Deletion (opens block.stmts).toNat ((remove block).1.print action) (block.print action) :=
  removeUpTo_succ_deletion action (removeUpTo_deletion action block.stmts.length) block

theorem scan_of_not_opens {stmts : List (Stmt Action)} (clear : opens stmts = false) :
    scan stmts = .done stmts := by
  induction stmts with
  | nil => rfl
  | cons stmt rest ih =>
      simp only [opens, List.any_cons, Bool.or_eq_false_iff] at clear
      simp [scan, clear.1, ih clear.2, Scan.addFront]

/-- Without a start marker there is nothing to remove. -/
theorem remove_of_not_opens {block : Block Action} (clear : opens block.stmts = false) :
    remove block = (block, []) := by
  simp [remove, removeUpTo, scan_of_not_opens clear]

end Region

/-! ## Spans -/

namespace Span

/-- Whether a scan for spans changes something at a statement. -/
def acts (stmt : Stmt Action) : Bool :=
  stmt.hasBefore .spanEnd || stmt.hasAfter .spanEnd || stmt.hasBefore .instrumented

/-- The block that a scan leaves. -/
def Scan.applyTo (block : Block Action) : Scan Action → Block Action
  | .done stmts => { block with stmts := stmts }
  | .hollow stmts => { block with stmts := stmts }
  | .found cut => cut.apply block

theorem cutOut_text (front inside back : List (Stmt Action)) :
    (cutOut front inside back).text action =
      Stmt.printAll action front ++ Stmt.printAll action inside ++ Stmt.printAll action back := by
  cases inside with
  | nil => simp [cutOut, Cut.text]
  | cons first rest =>
      have hdetach := Stmt.detach_print action first .spanStart
      simp only [cutOut, Cut.text, Stmt.printAll_cons, ← hdetach, List.append_assoc]

/-- Taking the comments off the first statement of a cut leaves those behind
the last one. -/
theorem cutOut_removed_last (front inside back : List (Stmt Action)) (stmt : Stmt Action) :
    ∃ earlier last, (cutOut front (inside ++ [stmt]) back).removed = earlier ++ [last] ∧
      last.after = stmt.after := by
  cases inside with
  | nil =>
      refine ⟨[], (stmt.detach .spanStart).2, rfl, ?_⟩
      unfold Stmt.detach
      split <;> rfl
  | cons first rest => exact ⟨(first.detach .spanStart).2 :: rest, stmt, rfl, rfl⟩

/-- A cut that ends with a marker behind its last statement deletes the marker. -/
theorem cutOut_deletion_of_hasAfter (block : Block Action) (front inside back : List (Stmt Action))
    {stmt : Stmt Action} (ended : stmt.hasAfter .spanEnd = true) :
    Deletion 1 (((cutOut front (inside ++ [stmt]) back).apply block).print action)
      (block.opening ++ (Stmt.printAll action front ++ Stmt.printAll action (inside ++ [stmt]) ++
        Stmt.printAll action back) ++ block.closing) := by
  obtain ⟨earlier, last, hremoved, hafter⟩ := cutOut_removed_last front inside back stmt
  obtain ⟨entry, hmember, hmarker⟩ := List.any_eq_true.mp ended
  have nonempty : entry ≠ [] := by
    intro hnil
    rw [hnil] at hmarker
    exact Bool.false_ne_true ((Marker.isOn_nil .spanEnd).symm.trans hmarker)
  have hclassified : (Marker.classify entry).isSome = true :=
    List.find?_isSome.mpr ⟨.spanEnd, by simp [Marker.all], hmarker⟩
  have leaves : Cut.stays entry = false := by
    rw [Cut.stays, ← Option.not_isSome, hclassified, Bool.not_true, Bool.and_false]
  rw [← hafter] at hmember
  have hmoved := Cut.moved_deletion_of_last action hremoved
    (filter_deletion_of_mem hmember nonempty leaves)
  rw [← cutOut_text]
  exact Cut.apply_deletion action hmoved block

/-- What a scan does at one statement. A start marker moves the statements since
the last one to the front, so only the division of the two lists changes. -/
theorem scanFrom_cons (front inside : List (Stmt Action)) (stmt : Stmt Action)
    (rest : List (Stmt Action)) :
    ∃ front' inside', front' ++ inside' = front ++ inside ∧
      scanFrom front inside (stmt :: rest) =
        if stmt.hasBefore .spanEnd then
          if inside'.isEmpty then
            (.hollow (front' ++
              ((stmt.stripBefore .spanEnd).1.stripBefore .spanStart).1 :: rest), 0)
          else (.found (cutOut front' inside' ((stmt.stripBefore .spanEnd).1 :: rest)), 0)
        else if stmt.hasAfter .spanEnd then
          (.found (cutOut front' (inside' ++ [stmt]) rest), 0)
        else if stmt.hasBefore .instrumented then
          ((scanFrom front' (inside' ++ [(stmt.strip .instrumented).1]) rest).1,
            (stmt.strip .instrumented).2 +
              (scanFrom front' (inside' ++ [(stmt.strip .instrumented).1]) rest).2)
        else scanFrom front' (inside' ++ [stmt]) rest := by
  by_cases hstarts : stmt.hasBefore .spanStart = true
  · exact ⟨front ++ inside, [], by simp, by simp [scanFrom, hstarts]⟩
  · exact ⟨front, inside, rfl, by simp [scanFrom, hstarts]⟩

/-- A scan deletes text, and no marker on which it acts survives it. -/
theorem scanFrom_deletion (block : Block Action) (front inside rest : List (Stmt Action)) :
    Deletion (rest.any acts).toNat (((scanFrom front inside rest).1.applyTo block).print action)
      (block.opening ++ Stmt.printAll action (front ++ inside ++ rest) ++ block.closing) := by
  induction rest generalizing front inside with
  | nil => exact (Deletion.refl _).of_eq rfl (by simp [scanFrom, Scan.applyTo, Block.print_eq])
  | cons stmt rest ih =>
      obtain ⟨front', inside', hjoin, hscan⟩ := scanFrom_cons front inside stmt rest
      rw [hscan, ← hjoin]
      by_cases hbefore : stmt.hasBefore .spanEnd = true
      · have hclear := Stmt.stripBefore_deletion action stmt .spanEnd
        have hpositive := Stmt.stripBefore_pos hbefore
        have hany : ((stmt :: rest).any acts).toNat = 1 := by simp [acts, hbefore]
        rw [if_pos hbefore, hany]
        split
        · rename_i hempty
          rw [List.isEmpty_iff] at hempty
          have hstart := Stmt.stripBefore_deletion action (stmt.stripBefore .spanEnd).1 .spanStart
          have hstmt := (hstart.trans hclear).mono (Nat.le_add_right_of_le hpositive)
          exact (Stmt.replace_deletion action hstmt block.opening front' rest block.closing).of_eq
            rfl (by simp [hempty])
        · have hcut := Cut.apply_deletion action (Cut.moved_deletion action
            (cutOut front' inside' ((stmt.stripBefore .spanEnd).1 :: rest))) block
          have hstmt := Stmt.replace_deletion action (hclear.mono hpositive)
            block.opening (front' ++ inside') rest block.closing
          exact hcut.trans (hstmt.of_eq (by simp [cutOut_text]) rfl)
      · rw [if_neg hbefore]
        by_cases hafter : stmt.hasAfter .spanEnd = true
        · have hany : ((stmt :: rest).any acts).toNat = 1 := by simp [acts, hafter]
          rw [if_pos hafter, hany]
          exact (cutOut_deletion_of_hasAfter action block front' inside' rest hafter).of_eq
            rfl (by simp)
        · rw [if_neg hafter]
          by_cases htagged : stmt.hasBefore .instrumented = true
          · have hany : ((stmt :: rest).any acts).toNat = 1 := by simp [acts, htagged]
            rw [if_pos htagged, hany]
            have hstrip := (Stmt.strip_deletion action stmt .instrumented).mono
              (Stmt.stripBefore_pos htagged)
            have hstmt := Stmt.replace_deletion action hstrip block.opening (front' ++ inside')
              rest block.closing
            have later := (ih front' (inside' ++ [(stmt.strip .instrumented).1])).mono
              (Nat.zero_le _)
            exact later.trans (hstmt.of_eq (by simp) rfl)
          · have hany : (stmt :: rest).any acts = rest.any acts := by
              simp [acts, hbefore, hafter, htagged]
            rw [if_neg htagged, hany]
            exact (ih front' (inside' ++ [stmt])).of_eq rfl (by simp)

/-- One more scan before scans that delete text. -/
theorem removeUpTo_succ_deletion {fuel : Nat}
    (later : ∀ block : Block Action,
      Deletion 0 ((removeUpTo fuel block).1.print action) (block.print action))
    (block : Block Action) :
    Deletion (block.stmts.any acts).toNat ((removeUpTo (fuel + 1) block).1.print action)
      (block.print action) := by
  have hscan : Deletion (block.stmts.any acts).toNat
      (((scan block.stmts).1.applyTo block).print action) (block.print action) :=
    scanFrom_deletion action block [] [] block.stmts
  simp only [removeUpTo]
  split
  · rename_i stmts tags hdone
    rw [hdone] at hscan
    exact hscan
  · rename_i stmts tags hhollow
    rw [hhollow] at hscan
    exact (later { block with stmts := stmts }).trans hscan
  · rename_i cut tags hfound
    rw [hfound] at hscan
    exact (later (cut.apply block)).trans hscan

theorem removeUpTo_deletion (fuel : Nat) (block : Block Action) :
    Deletion 0 ((removeUpTo fuel block).1.print action) (block.print action) := by
  induction fuel generalizing block with
  | zero => exact .refl _
  | succ fuel ih => exact (removeUpTo_succ_deletion action ih block).mono (Nat.zero_le _)

/-- Removing spans deletes text, and something if a scan acts on a statement. -/
theorem remove_deletion (block : Block Action) :
    Deletion (block.stmts.any acts).toNat ((remove block).1.print action) (block.print action) :=
  removeUpTo_succ_deletion action (removeUpTo_deletion action (endCount block)) block

theorem scanFrom_of_not_acts (front inside : List (Stmt Action)) {rest : List (Stmt Action)}
    (idle : rest.any acts = false) :
    scanFrom front inside rest = (.done (front ++ inside ++ rest), 0) := by
  induction rest generalizing front inside with
  | nil => simp [scanFrom]
  | cons stmt rest ih =>
      obtain ⟨front', inside', hjoin, hscan⟩ := scanFrom_cons front inside stmt rest
      simp only [List.any_cons, acts, Bool.or_eq_false_iff] at idle
      obtain ⟨⟨⟨hbefore, hafter⟩, htagged⟩, hrest⟩ := idle
      rw [hscan, hbefore, hafter, htagged, ← hjoin]
      simp [ih front' (inside' ++ [stmt]) hrest]

/-- Without a marker to act on there is nothing to remove. -/
theorem remove_of_not_acts {block : Block Action} (idle : block.stmts.any acts = false) :
    remove block = (block, ⟨0, 0⟩) := by
  simp [remove, removeUpTo, scan, scanFrom_of_not_acts [] [] idle]

end Span

end Deinstrument
