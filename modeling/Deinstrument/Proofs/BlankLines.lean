import Deinstrument.Proofs.WholeLines

/-!
# Blank lines around a deleted extent

A text is single spaced if no two blank lines follow each other, that is, if
there are never three line breaks in a row. Deleting an extent brings the line
breaks above it and below it together. Widened to its lines, the extent takes
one of them along if there would be three, so a single spaced text stays so.
-/

namespace Deinstrument.Extent

open Go (isLineEnd)

/-- A text without two blank lines in a row. -/
def SingleSpaced (text : Text) : Prop :=
  ¬ ['\n', '\n', '\n'] <:+: text

/-- Line breaks at three positions in a row. -/
theorem singleSpaced_iff {text : Text} :
    SingleSpaced text ↔ ∀ place, text[place]? = some '\n' → text[place + 1]? = some '\n' →
      text[place + 2]? ≠ some '\n' := by
  constructor
  · intro hsingle place hfirst hsecond hthird
    refine hsingle (List.infix_iff_getElem?.mpr ⟨place, ?_, fun offset hoffset => ?_⟩)
    · obtain ⟨hinside, -⟩ := List.getElem?_eq_some_iff.mp hthird
      simp only [List.length_cons, List.length_nil]
      omega
    · rw [Nat.add_comm]
      match offset, hoffset with
      | 0, _ => exact hfirst
      | 1, _ => exact hsecond
      | 2, _ => exact hthird
  · intro hplaces hinfix
    obtain ⟨place, -, hfound⟩ := List.infix_iff_getElem?.mp hinfix
    simp only [Nat.add_comm _ place] at hfound
    exact hplaces place (hfound 0 (by decide)) (hfound 1 (by decide)) (hfound 2 (by decide))

theorem singleSpaced_iff_lt {text : Text} :
    (∀ place < text.length, text[place]? = some '\n' → text[place + 1]? = some '\n' →
      text[place + 2]? ≠ some '\n') ↔ SingleSpaced text := by
  rw [singleSpaced_iff]
  refine ⟨fun hplaces place hfirst => ?_, fun hplaces place _ => hplaces place⟩
  exact hplaces place (List.getElem?_eq_some_iff.mp hfirst).1 hfirst

instance (text : Text) : Decidable (SingleSpaced text) :=
  decidable_of_iff _ singleSpaced_iff_lt

/-- Where an extent goes, no three line breaks come together from above and below. -/
structure Parts (text : Text) (extent : Extent) : Prop where
  one_above : extent.start ≠ 0 → text[extent.start - 1]? = some '\n' →
    text[extent.stop]? = some '\n' → text[extent.stop + 1]? ≠ some '\n'
  two_above : 2 ≤ extent.start → text[extent.start - 2]? = some '\n' →
    text[extent.start - 1]? = some '\n' → text[extent.stop]? ≠ some '\n'

section Deletion

variable {text : Text} {extent : Extent}

theorem getElem?_delete (ordered : extent.start ≤ extent.stop)
    (inside : extent.stop ≤ text.length) (place : Nat) :
    (delete text extent)[place]? =
      if place < extent.start then text[place]?
      else text[extent.stop + (place - extent.start)]? := by
  have hlength : (text.take extent.start).length = extent.start := by
    rw [List.length_take]
    omega
  rw [delete, Nat.min_eq_left inside, Nat.min_eq_left ordered, List.getElem?_append, hlength]
  split
  · rw [List.getElem?_take, if_pos ‹_›]
  · rw [List.getElem?_drop]

/-- A single spaced text stays so if the line breaks around an extent do. -/
theorem SingleSpaced.delete (single : SingleSpaced text) (ordered : extent.start ≤ extent.stop)
    (inside : extent.stop ≤ text.length) (parts : Parts text extent) :
    SingleSpaced (delete text extent) := by
  rw [singleSpaced_iff] at single ⊢
  intro place
  simp only [getElem?_delete ordered inside]
  -- The three positions stand in front of the extent, around it, or behind it.
  rcases Nat.lt_or_ge (place + 2) extent.start with hfront | hfront
  · rw [if_pos (by omega), if_pos (by omega), if_pos hfront]
    exact single place
  rcases Nat.lt_or_ge place extent.start with haround | hbehind
  · rcases Nat.eq_or_lt_of_le (Nat.succ_le_of_lt haround) with hlast | hmiddle
    · have hplace : place = extent.start - 1 := by omega
      have hnext : extent.stop + (place + 1 - extent.start) = extent.stop := by omega
      have hafter : extent.stop + (place + 2 - extent.start) = extent.stop + 1 := by omega
      rw [if_pos haround, if_neg (by omega), if_neg (by omega), hnext, hafter, hplace]
      exact parts.one_above (by omega)
    · have hplace : place = extent.start - 2 := by omega
      have hnext : place + 1 = extent.start - 1 := by omega
      have hafter : extent.stop + (place + 2 - extent.start) = extent.stop := by omega
      rw [if_pos haround, if_pos hmiddle, if_neg (by omega), hafter, hnext, hplace]
      exact parts.two_above (by omega)
  · have hnext : extent.stop + (place + 1 - extent.start) =
        extent.stop + (place - extent.start) + 1 := by omega
    have hafter : extent.stop + (place + 2 - extent.start) =
        extent.stop + (place - extent.start) + 2 := by omega
    rw [if_neg (by omega), if_neg (by omega), if_neg (by omega), hnext, hafter]
    exact single _

/-- An extent that shares its lines has no line breaks on both of its sides. -/
theorem getElem?_stop_ne_of_shared (stands : Stands text extent)
    (shared : isAlone text extent = false) (later : extent.start ≠ 0)
    (above : text[extent.start - 1]? = some '\n') : text[extent.stop]? ≠ some '\n' := by
  intro hbelow
  have hfirst : lineStart text extent.start = extent.start := by
    have := lt_lineStart stands.start_le (by omega) above
    have := lineStart_le text extent.start
    omega
  have hindent : (text.take extent.start).drop (lineStart text extent.start) = [] := by
    rw [hfirst]
    exact List.drop_eq_nil_of_le (List.length_take_le _ _)
  have hends : isLineEnd (text.drop extent.stop) = true := by
    rw [← List.head?_drop] at hbelow
    obtain ⟨rest, hrest⟩ := List.head?_eq_some_iff.mp hbelow
    rw [hrest]
    rfl
  rw [isAlone, hindent, hends] at shared
  cases shared

/-- A line break behind the lines of an extent ends a blank line, and in a single
spaced text it is the only one. -/
theorem getElem?_lineStop_succ_ne (single : SingleSpaced text)
    (empty : text[lineStop text extent]? = some '\n') :
    text[lineStop text extent + 1]? ≠ some '\n' := by
  obtain ⟨hinside, -⟩ := List.getElem?_eq_some_iff.mp empty
  have hbefore : lineEnd text extent < text.length := by
    refine Nat.lt_of_le_of_lt ?_ hinside
    rw [lineStop]
    split <;> omega
  rw [lineStop, if_pos hbefore] at empty ⊢
  exact singleSpaced_iff.mp single _ (getElem?_lineEnd hbefore) empty

theorem blankAbove_of_newlines {first : Nat} (le : 2 ≤ first)
    (upper : text[first - 2]? = some '\n') (lower : text[first - 1]? = some '\n') :
    blankAbove text first = true := by
  simp [blankAbove, le, upper, lower]

/-- Where a widened extent goes, no three line breaks come together. -/
theorem parts_wholeLines (stands : Stands text extent) (single : SingleSpaced text) :
    Parts text (wholeLines text extent) := by
  rw [wholeLines_eq]
  split
  · split
    · rename_i hbelow
      have hempty := beq_iff_eq.mp (Bool.and_eq_true_iff.mp hbelow).2
      have hnext := getElem?_lineStop_succ_ne single hempty
      exact ⟨fun _ _ hfound => absurd hfound hnext, fun _ _ _ => hnext⟩
    · rename_i hbelow
      have hfilled (blank : blankAbove text (lineStart text extent.start) = true) :
          text[lineStop text extent]? ≠ some '\n' := by
        intro hempty
        exact hbelow (Bool.and_eq_true_iff.mpr ⟨blank, beq_iff_eq.mpr hempty⟩)
      split
      · rename_i habove
        have hnext := hfilled (Bool.and_eq_true_iff.mp (Bool.and_eq_true_iff.mp habove).1).1
        exact ⟨fun _ _ hfound => absurd hfound hnext, fun _ _ _ => hnext⟩
      · exact ⟨fun _ _ hempty => getElem?_lineStop_succ_ne single hempty,
          fun hle hupper hlower => hfilled (blankAbove_of_newlines hle hupper hlower)⟩
  · rename_i hshared
    have hne := getElem?_stop_ne_of_shared stands (Bool.eq_false_iff.mpr hshared)
    exact ⟨fun hlater habove hbelow => absurd hbelow (hne hlater habove),
      fun hle _ habove => hne (by omega) habove⟩

/-- Deleting an extent together with its lines leaves no two blank lines in a row
where there were none. -/
theorem singleSpaced_delete_wholeLines (single : SingleSpaced text)
    (stands : Stands text extent) : SingleSpaced (delete text (wholeLines text extent)) := by
  obtain ⟨hstart, hstop, hinside⟩ := stands.wholeLines
  have hordered : (wholeLines text extent).start ≤ (wholeLines text extent).stop :=
    Nat.le_trans hstart (Nat.le_trans (Nat.le_of_lt stands.nonempty) hstop)
  exact single.delete hordered hinside (parts_wholeLines stands single)

end Deletion

/-- An import between two blank lines. -/
def spacedImportSource : Text :=
  "package p\n\nimport \"a\"\n\nfunc f()\n".toList

theorem singleSpaced_delete_wholeLines_spacedImportSource :
    SingleSpaced spacedImportSource ∧ Stands spacedImportSource ⟨11, 21⟩ ∧
    SingleSpaced (delete spacedImportSource (wholeLines spacedImportSource ⟨11, 21⟩)) ∧
    delete spacedImportSource (wholeLines spacedImportSource ⟨11, 21⟩) =
      "package p\n\nfunc f()\n".toList ∧
    ¬ SingleSpaced (delete spacedImportSource ⟨11, 21⟩) := by
  have hopens : spacedImportSource[11]? = some 'i' := rfl
  have hcloses : spacedImportSource[20]? = some '"' := rfl
  have stands : Stands spacedImportSource ⟨11, 21⟩ :=
    .of_getElem? (by decide) hopens hcloses ⟨rfl, rfl⟩
  have single : SingleSpaced spacedImportSource := by decide
  exact ⟨single, stands, singleSpaced_delete_wholeLines single stands, by decide, by decide⟩

end Deinstrument.Extent
