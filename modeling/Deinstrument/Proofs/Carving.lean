import Deinstrument.Proofs.Openers
import Deinstrument.Proofs.WholeLines

/-!
# Deleting extents in order

Deleting disjoint extents from back to front leaves the texts between them. When
an extent is widened to its lines, the text in front of it is cut behind a line
break, and the text behind it goes up to the end of the line, perhaps with one
more line break.
-/

namespace Deinstrument.Extent

open Go (lineRest isLineEnd)

/-! ## From front to back -/

/-- The text from a position on, without extents behind that position. -/
def carve : Nat → Text → List Extent → Text
  | _, text, [] => text
  | position, text, extent :: extents =>
      text.take (extent.start - position) ++
        carve extent.stop (text.drop (extent.stop - position)) extents

/-- Nonempty extents in order, between a position and a limit. -/
def Ascending (limit : Nat) : Nat → List Extent → Prop
  | _, [] => True
  | position, extent :: extents =>
      position ≤ extent.start ∧ extent.start < extent.stop ∧ extent.stop ≤ limit ∧
        Ascending limit extent.stop extents

section Carve

variable {limit position : Nat} {extents : List Extent}

theorem Ascending.start_le (ascending : Ascending limit position extents) :
    ∀ extent ∈ extents, position ≤ extent.start := by
  induction extents generalizing position with
  | nil => exact List.forall_mem_nil _
  | cons extent extents ih =>
      obtain ⟨hstart, hnonempty, -, hlater⟩ := ascending
      refine List.forall_mem_cons.mpr ⟨hstart, fun other hother => ?_⟩
      have := ih hlater other hother
      omega

theorem Ascending.mono (ascending : Ascending limit position extents) {earlier : Nat}
    (le : earlier ≤ position) : Ascending limit earlier extents := by
  cases extents with
  | nil => trivial
  | cons extent extents => exact ⟨Nat.le_trans le ascending.1, ascending.2⟩

theorem Ascending.pairwise (ascending : Ascending limit position extents) :
    extents.Pairwise fun first second => first.start < second.start := by
  induction extents generalizing position with
  | nil => exact .nil
  | cons extent extents ih =>
      obtain ⟨-, hnonempty, -, hlater⟩ := ascending
      refine List.pairwise_cons.mpr ⟨fun other hother => ?_, ih hlater⟩
      exact Nat.lt_of_lt_of_le hnonempty (hlater.start_le other hother)

theorem sort_concat (front : List Extent) (last : Extent) :
    sort (front ++ [last]) = insert last (sort front) := by
  simp [sort, List.foldl_append]

/-- Extents in order are sorted by turning them around. -/
theorem sort_of_pairwise {extents : List Extent}
    (ordered : extents.Pairwise fun first second => first.start < second.start) :
    sort extents = extents.reverse := by
  induction extents using List.reverseRecOn with
  | nil => rfl
  | append_singleton front last ih =>
      obtain ⟨hfront, -, hlast⟩ := List.pairwise_append.mp ordered
      rw [sort_concat, ih hfront, List.reverse_append]
      cases hreverse : front.reverse with
      | nil => rfl
      | cons first rest =>
          have hmem : first ∈ front := by
            rw [← List.mem_reverse, hreverse]
            exact List.mem_cons_self
          have hlt := hlast first hmem last (List.mem_singleton_self last)
          simp [insert, Nat.not_le.mpr hlt]

/-- Deleting extents in order leaves the texts between them. -/
theorem deleteAll_eq_carve {front text : Text}
    (ascending : Ascending (front ++ text).length front.length extents) :
    deleteAll (front ++ text) extents = front ++ carve front.length text extents := by
  rw [deleteAll, sort_of_pairwise ascending.pairwise, List.foldl_reverse]
  induction extents generalizing front text with
  | nil => rfl
  | cons extent extents ih =>
      obtain ⟨hstart, hnonempty, hstop, hlater⟩ := ascending
      -- The later extents stand behind the end of this one.
      let before := front ++ text.take (extent.stop - front.length)
      have hsplit : front ++ text = before ++ text.drop (extent.stop - front.length) := by
        simp [before]
      have hbefore : before.length = extent.stop := by
        simp only [before, List.length_append, List.length_take] at hstop ⊢
        omega
      have hrest : extents.foldr (fun extent text => delete text extent) (front ++ text) =
          before ++ carve extent.stop (text.drop (extent.stop - front.length)) extents := by
        have hascending : Ascending (before ++ text.drop (extent.stop - front.length)).length
            before.length extents := by
          rw [← hsplit, hbefore]
          exact hlater
        rw [hsplit, ih hascending, hbefore]
      have hkept : before.take extent.start = front ++ text.take (extent.start - front.length) := by
        simp only [before]
        rw [List.take_append, List.take_of_length_le hstart, List.take_take]
        congr 2
        omega
      rw [List.foldr_cons, hrest, carve, delete]
      simp only [List.length_append, hbefore]
      rw [Nat.min_eq_left (Nat.le_add_right _ _), Nat.min_eq_left (Nat.le_of_lt hnonempty),
        List.take_append_of_le_length (hbefore ▸ Nat.le_of_lt hnonempty), hkept,
        List.drop_left' hbefore, List.append_assoc]

/-- Extents in order whose deletion leaves a text with a given property. -/
structure Leaves (property : Text → Prop) (limit position : Nat) (text : Text)
    (extents : List Extent) : Prop where
  ascending : Ascending limit position extents
  holds : property (carve position text extents)

namespace Leaves

variable {property other : Text → Prop} {text : Text}

theorem imp (leaves : Leaves property limit position text extents)
    (implies : ∀ text, property text → other text) : Leaves other limit position text extents :=
  ⟨leaves.ascending, implies _ leaves.holds⟩

/-- Text in front of all extents stays. -/
theorem append {kept : Text}
    (leaves : Leaves (fun rest => property (kept ++ rest)) limit (position + kept.length) text
      extents) : Leaves property limit position (kept ++ text) extents := by
  obtain ⟨hascending, hholds⟩ := leaves
  refine ⟨hascending.mono (Nat.le_add_right _ _), ?_⟩
  cases extents with
  | nil => exact hholds
  | cons extent extents =>
      obtain ⟨hstart, hnonempty, -, -⟩ := hascending
      have htake : kept.length ≤ extent.start - position := by omega
      have hdrop : kept.length ≤ extent.stop - position := by omega
      rw [carve, List.take_append, List.drop_append, List.take_of_length_le htake,
        List.drop_eq_nil_of_le hdrop, List.nil_append, Nat.sub_sub, Nat.sub_sub, List.append_assoc]
      exact hholds

/-- The text of the first extent goes. -/
theorem delete {deleted : Text} (nonempty : deleted ≠ [])
    (inside : position + deleted.length ≤ limit)
    (leaves : Leaves property limit (position + deleted.length) text extents) :
    Leaves property limit position (deleted ++ text)
      (⟨position, position + deleted.length⟩ :: extents) := by
  have hlength := List.length_pos_iff.mpr nonempty
  refine ⟨⟨Nat.le_refl _, Nat.lt_add_of_pos_right hlength, inside, leaves.ascending⟩, ?_⟩
  rw [carve, Nat.sub_self, Nat.add_sub_cancel_left, List.drop_left]
  exact leaves.holds

end Leaves

end Carve

/-! ## Widening around a piece of text -/

/-- What goes with an extent from the text behind it, and what is left of that:
the rest of the line goes, with its line break, and perhaps one more. -/
inductive LineCut (back : Text) : Text → Text → Prop
  | final (whole : lineRest back = back) : LineCut back back []
  | line {rest : Text} (split : back = lineRest back ++ '\n' :: rest) :
      LineCut back (lineRest back ++ ['\n']) rest
  | blank {rest : Text} (split : back = lineRest back ++ '\n' :: '\n' :: rest) :
      LineCut back (lineRest back ++ ['\n', '\n']) rest

/-- The extent of a text behind two others. -/
def around (front gap core : Text) : Extent :=
  ⟨(front ++ gap).length, (front ++ gap ++ core).length⟩

section Pieces

variable {front gap core back : Text} {last : Char}

theorem drop_around (front gap core back : Text) :
    (front ++ gap ++ core ++ back).drop (around front gap core).stop = back :=
  List.drop_left

theorem take_around (front gap core back : Text) :
    (front ++ gap ++ core ++ back).take (around front gap core).start = front ++ gap := by
  rw [List.append_assoc]
  exact List.take_left

/-- The text in front of an extent that is alone on its lines is cut behind a
line break. -/
theorem exists_indent (ends : front.getLast? = some last)
    (edge : last = '\n' ∨ Text.isBlank last = false)
    (alone : isAlone (front ++ gap ++ core ++ back) (around front gap core) = true) :
    ∃ kept indent, gap = kept ++ indent ∧
      (∀ character ∈ indent, Text.isBlank character = true) ∧
      (front ++ kept).getLast? = some '\n' ∧
      lineStart (front ++ gap ++ core ++ back) (around front gap core).start =
        (front ++ kept).length := by
  have hinside : (around front gap core).start ≤ (front ++ gap ++ core ++ back).length := by
    simp only [around, List.length_append]
    omega
  obtain ⟨above, indent, hsplit, hlength, hindent, hends⟩ :=
    exists_lineStart (front ++ gap ++ core ++ back) (around front gap core).start
  have hblank := (Bool.and_eq_true_iff.mp alone).1
  rw [hsplit, ← hlength hinside, List.drop_left, List.all_eq_true] at hblank
  rw [take_around] at hsplit
  rw [← hlength hinside]
  rcases List.append_eq_append_iff.mp hsplit with ⟨kept, rfl, rfl⟩ | ⟨inside, rfl, rfl⟩
  · refine ⟨kept, indent, rfl, hblank, ?_, rfl⟩
    rcases hends with hnil | hends
    · rw [(List.append_eq_nil_iff.mp hnil).1] at ends
      cases ends
    · exact hends
  · -- The line would start in front of the last character there.
    rcases List.eq_nil_or_concat' inside with rfl | ⟨init, character, rfl⟩
    · refine ⟨[], gap, rfl, hblank, ?_, by simp⟩
      rw [List.append_nil] at ends ⊢
      rcases hends with rfl | hends
      · cases ends
      · rw [List.append_nil]
        exact hends
    · exfalso
      rw [← List.append_assoc, List.getLast?_concat] at ends
      cases ends
      have hmem : last ∈ init ++ [last] ++ gap := by simp
      rcases edge with rfl | hsolid
      · exact hindent hmem
      · cases hsolid.symm.trans (hblank last hmem)

/-- The end of the line of an extent. -/
theorem exists_lineCut (front gap core back : Text) :
    ∃ taken rest, LineCut back taken rest ∧ back = taken ++ rest ∧
      (rest = [] ∨ taken = lineRest back ++ ['\n']) ∧
      lineStop (front ++ gap ++ core ++ back) (around front gap core) =
        (front ++ gap ++ core ++ taken).length := by
  have hend : lineEnd (front ++ gap ++ core ++ back) (around front gap core) =
      (front ++ gap ++ core ++ lineRest back).length := by
    rw [lineEnd, drop_around]
    exact List.length_append.symm
  obtain ⟨behind, hsplit, rfl | ⟨rest, rfl⟩⟩ := exists_lineRest back
  · rw [List.append_nil] at hsplit
    refine ⟨back, [], .final hsplit.symm, (List.append_nil _).symm, .inl rfl, ?_⟩
    rw [lineStop, hend, ← hsplit, if_neg (Nat.lt_irrefl _)]
  · refine ⟨lineRest back ++ ['\n'], rest, .line hsplit, by simpa using hsplit, .inr rfl, ?_⟩
    have hlength := congrArg List.length hsplit
    simp only [List.length_append, List.length_cons] at hlength
    rw [lineStop, hend, if_pos]
    · simp only [List.length_append, List.length_singleton]
      omega
    · simp only [List.length_append]
      omega

/-- If a second line break stands in front of the line break that ends the text
above, one of the two may go. -/
theorem exists_blank_above {kept behind : Text} (ends : front.getLast? = some last)
    (inline : last ≠ '\n') (closed : (front ++ kept).getLast? = some '\n')
    (blank : (front ++ kept ++ behind)[(front ++ kept).length - 2]? = some '\n') :
    ∃ init, kept = init ++ ['\n'] ∧ (front ++ init).getLast? = some '\n' := by
  rcases List.eq_nil_or_concat' kept with rfl | ⟨init, final, rfl⟩
  · rw [List.append_nil, ends] at closed
    exact absurd (Option.some.inj closed) inline
  · rw [← List.append_assoc, List.getLast?_concat] at closed
    cases closed
    have hlength : (front ++ (init ++ ['\n'])).length = (front ++ init).length + 1 := by
      rw [← List.append_assoc, List.length_append, List.length_singleton]
    have hpos : 0 < (front ++ init).length := by
      cases front with
      | nil => cases ends
      | cons first front => exact Nat.succ_pos _
    refine ⟨init, rfl, ?_⟩
    rw [hlength, ← List.append_assoc, List.append_assoc,
      List.getElem?_append_left (by omega)] at blank
    rw [List.getLast?_eq_getElem?]
    exact blank

/-- An extent that is widened takes blanks behind a line break in front of it and
the rest of its line. No blank line above goes if there is no text between the
extent and the line break that ends the text in front. -/
theorem wholeLines_around (ends : front.getLast? = some last)
    (edge : last = '\n' ∨ Text.isBlank last = false) (gap core back : Text)
    (goes : last ≠ '\n' ∨ (isLineEnd back = true → closesBelow (front ++ gap ++ core ++ back)
      (lineStop (front ++ gap ++ core ++ back) (around front gap core)) = false)) :
    wholeLines (front ++ gap ++ core ++ back) (around front gap core) = around front gap core ∨
      ∃ kept dropped taken rest, gap = kept ++ dropped ∧
        (∀ character ∈ dropped, Text.isBlank character = true) ∧
        (front ++ kept).getLast? = some '\n' ∧ isLineEnd back = true ∧ LineCut back taken rest ∧
        wholeLines (front ++ gap ++ core ++ back) (around front gap core) =
          ⟨(front ++ kept).length, (front ++ gap ++ core ++ taken).length⟩ := by
  obtain ⟨taken, rest, hcut, hback, hline, hstop⟩ :=
    exists_lineCut front gap core back
  have hrest : (front ++ gap ++ core ++ back).drop
      (lineStop (front ++ gap ++ core ++ back) (around front gap core)) = rest := by
    rw [hstop, hback, ← List.append_assoc, List.drop_left]
  -- What being alone on its lines says about the text around the extent.
  have hpieces (alone : isAlone (front ++ gap ++ core ++ back) (around front gap core) = true) :=
    exists_indent ends edge alone
  have hends (alone : isAlone (front ++ gap ++ core ++ back) (around front gap core) = true) :
      isLineEnd back = true := by
    have := (Bool.and_eq_true_iff.mp alone).2
    rwa [drop_around] at this
  have hwidening := widening (front ++ gap ++ core ++ back) (around front gap core)
  generalize wholeLines (front ++ gap ++ core ++ back) (around front gap core) = widened
    at hwidening ⊢
  cases hwidening with
  | none shared => exact .inl rfl
  | lines alone =>
      obtain ⟨kept, indent, hgap, hblank, hlast, hstart⟩ := hpieces alone
      exact .inr ⟨kept, indent, taken, rest, hgap, hblank, hlast, hends alone, hcut,
        by rw [hstart, hstop]⟩
  | below alone blank empty =>
      obtain ⟨kept, indent, hgap, hblank, hlast, hstart⟩ := hpieces alone
      have hnewline : ∃ later, rest = '\n' :: later := by
        rw [← List.head?_drop, hrest] at empty
        cases rest with
        | nil => cases empty
        | cons first later =>
            cases empty
            exact ⟨later, rfl⟩
      obtain ⟨later, rfl⟩ := hnewline
      obtain rfl := hline.resolve_left (List.cons_ne_nil _ _)
      refine .inr ⟨kept, indent, _, later, hgap, hblank, hlast, hends alone, .blank ?_, ?_⟩
      · rw [List.append_assoc] at hback
        exact hback
      · rw [hstart, hstop]
        simp only [List.length_append, List.length_cons, List.length_nil, Nat.add_assoc]
  | above alone blank later filled closes =>
      obtain ⟨kept, indent, hgap, hblank, hlast, hstart⟩ := hpieces alone
      obtain ⟨-, -, hnewline⟩ := newlines_of_blankAbove blank later
      rcases goes with hne | hopen
      · -- The line break that goes from above is not the one in front.
        have hsource : front ++ gap ++ core ++ back =
            front ++ kept ++ (indent ++ core ++ back) := by
          simp [hgap]
        rw [hstart, hsource] at hnewline
        obtain ⟨init, rfl, hinit⟩ := exists_blank_above ends hne hlast hnewline
        refine .inr ⟨init, '\n' :: indent, taken, rest, by simp [hgap],
          List.forall_mem_cons.mpr ⟨rfl, hblank⟩, hinit, hends alone, hcut, ?_⟩
        rw [hstart, hstop, ← List.append_assoc, List.length_append]
        rfl
      · rw [hopen (hends alone)] at closes
        cases closes

end Pieces

end Deinstrument.Extent
