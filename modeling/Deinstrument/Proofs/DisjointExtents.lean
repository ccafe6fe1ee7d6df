import Deinstrument.Proofs.Carving

/-!
# Deleting disjoint extents

Disjoint extents may be listed in any order. Sorting puts the last one first, so
that each deletion leaves the text in front of it, and with it the positions of the
extents still to come, as they were. What is left in the end are the characters
outside of all extents.
-/

namespace Deinstrument.Extent

/-- Whether a position lies in an extent. -/
def covers (extent : Extent) (position : Nat) : Bool :=
  extent.start ≤ position && position < extent.stop

/-- The characters of a text outside of all of several extents, when the text starts at
a position. -/
def uncovered (extents : List Extent) (position : Nat) (text : Text) : Text :=
  ((text.zipIdx position).filter fun entry => !extents.any (·.covers entry.2)).map (·.1)

/-! ## Sorting -/

section Order

variable {extents others : List Extent}

theorem insert_perm (extent : Extent) (extents : List Extent) :
    List.Perm (insert extent extents) (extent :: extents) := by
  induction extents with
  | nil => exact .refl _
  | cons first rest ih =>
      unfold insert
      split
      · exact (ih.cons first).trans (.swap extent first rest)
      · exact .refl _

/-- Inserting keeps extents ordered from back to front. -/
theorem pairwise_insert (extent : Extent)
    (ordered : extents.Pairwise fun first second => second.start ≤ first.start) :
    (insert extent extents).Pairwise fun first second => second.start ≤ first.start := by
  induction extents with
  | nil => exact List.pairwise_singleton _ _
  | cons first rest ih =>
      obtain ⟨hfirst, hrest⟩ := List.pairwise_cons.mp ordered
      unfold insert
      split
      next hle =>
        refine List.pairwise_cons.mpr ⟨fun other member => ?_, ih hrest⟩
        obtain rfl | later := List.mem_cons.mp ((insert_perm extent rest).mem_iff.mp member)
        · exact hle
        · exact hfirst other later
      next hlt =>
        refine List.pairwise_cons.mpr ⟨fun other member => ?_, ordered⟩
        obtain rfl | later := List.mem_cons.mp member
        · omega
        · exact Nat.le_trans (hfirst other later) (by omega)

theorem sort_perm (extents : List Extent) : List.Perm (sort extents) extents := by
  induction extents using List.reverseRecOn with
  | nil => exact .refl _
  | append_singleton front last ih =>
      rw [sort_concat]
      exact (insert_perm last _).trans ((ih.cons last).trans (List.perm_append_singleton last _).symm)

/-- Sorting orders extents from back to front. -/
theorem pairwise_sort (extents : List Extent) :
    (sort extents).Pairwise fun first second => second.start ≤ first.start := by
  induction extents using List.reverseRecOn with
  | nil => exact .nil
  | append_singleton front last ih =>
      rw [sort_concat]
      exact pairwise_insert last ih

/-- Disjoint extents by their starts are in order. -/
theorem ascending_of_pairwise {limit position : Nat}
    (ordered : extents.Pairwise fun first second => first.start ≤ second.start)
    (disjoint : extents.Pairwise Disjoint)
    (nonempty : ∀ extent ∈ extents, extent.start < extent.stop)
    (inside : ∀ extent ∈ extents, extent.stop ≤ limit)
    (behind : ∀ extent ∈ extents, position ≤ extent.start) :
    Ascending limit position extents := by
  induction extents generalizing position with
  | nil => trivial
  | cons extent rest ih =>
      obtain ⟨hfirst, hordered⟩ := List.pairwise_cons.mp ordered
      obtain ⟨happart, hdisjoint⟩ := List.pairwise_cons.mp disjoint
      obtain ⟨hextent, hnonempty⟩ := List.forall_mem_cons.mp nonempty
      obtain ⟨hstop, hinside⟩ := List.forall_mem_cons.mp inside
      refine ⟨behind extent List.mem_cons_self, hextent, hstop,
        ih hordered hdisjoint hnonempty hinside fun other member => ?_⟩
      -- The other extent does not start before this one, so it cannot end before it either.
      have hother := hnonempty other member
      have hstart := hfirst other member
      rcases happart other member with hbehind | hbefore <;> omega

end Order

/-! ## Deleting -/

section Delete

variable {limit position : Nat} {extents : List Extent}

theorem uncovered_append (extents : List Extent) (position : Nat) (front back : Text) :
    uncovered extents position (front ++ back) =
      uncovered extents position front ++ uncovered extents (position + front.length) back := by
  simp only [uncovered, List.zipIdx_append, List.filter_append, List.map_append]

theorem uncovered_of_free {text : Text}
    (free : ∀ place, position ≤ place → place < position + text.length →
      extents.any (·.covers place) = false) :
    uncovered extents position text = text := by
  have hall : (text.zipIdx position).filter (fun entry => !extents.any (·.covers entry.2)) =
      text.zipIdx position := by
    refine List.filter_eq_self.mpr fun entry member => ?_
    rw [free entry.2 (List.le_snd_of_mem_zipIdx member) (List.snd_lt_add_of_mem_zipIdx member)]
    rfl
  rw [uncovered, hall, List.zipIdx_map_fst]

theorem uncovered_of_covered {text : Text} {extent : Extent} (listed : extent ∈ extents)
    (start_le : extent.start ≤ position) (le_stop : position + text.length ≤ extent.stop) :
    uncovered extents position text = [] := by
  have hnone : (text.zipIdx position).filter (fun entry => !extents.any (·.covers entry.2)) =
      [] := by
    refine List.filter_eq_nil_iff.mpr fun entry member => ?_
    have hle := List.le_snd_of_mem_zipIdx member
    have hlt := List.snd_lt_add_of_mem_zipIdx member
    have hcovers : extents.any (·.covers entry.2) = true := by
      refine List.any_eq_true.mpr ⟨extent, listed, ?_⟩
      simp only [covers, Bool.and_eq_true, decide_eq_true_eq]
      omega
    simp [hcovers]
  rw [uncovered, hnone, List.map_nil]

/-- Extents in front of a text do not matter. -/
theorem uncovered_cons {extent : Extent} (stop_le : extent.stop ≤ position) (text : Text) :
    uncovered (extent :: extents) position text = uncovered extents position text := by
  refine congrArg (List.map _) (List.filter_congr fun entry member => ?_)
  have hle := List.le_snd_of_mem_zipIdx member
  have hfree : extent.covers entry.2 = false := by
    simp only [covers, Bool.and_eq_false_iff, decide_eq_false_iff_not]
    omega
  rw [List.any_cons, hfree, Bool.false_or]

/-- Between extents in order stand the characters outside of them. -/
theorem carve_eq_uncovered {text : Text}
    (ascending : Ascending (position + text.length) position extents) :
    carve position text extents = uncovered extents position text := by
  induction extents generalizing position text with
  | nil => exact (uncovered_of_free fun _ _ _ => rfl).symm
  | cons extent extents ih =>
      obtain ⟨hstart, hnonempty, hstop, hlater⟩ := ascending
      obtain ⟨front, rest, rfl, hfront⟩ : ∃ front rest, text = front ++ rest ∧
          front.length = extent.start - position :=
        ⟨text.take (extent.start - position), text.drop (extent.start - position),
          (List.take_append_drop _ _).symm, List.length_take_of_le (by omega)⟩
      rw [List.length_append] at hstop
      obtain ⟨inner, back, rfl, hinner⟩ : ∃ inner back, rest = inner ++ back ∧
          inner.length = extent.stop - extent.start :=
        ⟨rest.take (extent.stop - extent.start), rest.drop (extent.stop - extent.start),
          (List.take_append_drop _ _).symm, List.length_take_of_le (by omega)⟩
      have hmiddle : position + front.length = extent.start := by omega
      have hbehind : extent.start + inner.length = extent.stop := by omega
      have hcut : front.length + inner.length = extent.stop - position := by omega
      -- In front of the extent none is met, inside of it all goes, and behind it the others
      -- decide.
      have hopen : uncovered (extent :: extents) position front = front := by
        refine uncovered_of_free fun place _ hplace => List.any_eq_false.mpr fun other member => ?_
        have hother : extent.start ≤ other.start := by
          obtain rfl | later := List.mem_cons.mp member
          · exact Nat.le_refl _
          · have := hlater.start_le other later
            omega
        simp only [covers, Bool.and_eq_true, decide_eq_true_eq]
        omega
      have hgone : uncovered (extent :: extents) extent.start inner = [] :=
        uncovered_of_covered List.mem_cons_self (Nat.le_refl _) (Nat.le_of_eq hbehind)
      have hrest : carve extent.stop back extents = uncovered extents extent.stop back := by
        refine ih ?_
        rw [List.length_append, List.length_append] at hlater
        convert hlater using 1
        omega
      rw [carve, ← hfront, ← hcut, List.take_left, ← List.append_assoc, ← List.length_append,
        List.drop_left, hrest, uncovered_append, uncovered_append, hopen, hmiddle, hgone,
        List.append_nil, List.length_append, ← Nat.add_assoc, hmiddle, hbehind,
        uncovered_cons (Nat.le_refl _)]

/-- The text in front of an extent stays. -/
theorem take_delete {text : Text} {extent : Extent} (inside : position ≤ text.length)
    (start_le : position ≤ extent.start) (le_stop : extent.start ≤ extent.stop) :
    (delete text extent).take position = text.take position := by
  have hcut : position ≤ min extent.start (min extent.stop text.length) := by omega
  rw [delete, List.take_append_of_le_length, List.take_take, Nat.min_eq_left hcut]
  rw [List.length_take]
  omega

/-- The text in front of several extents stays when they are deleted one after the other. -/
theorem take_foldl_delete {text : Text} (inside : position ≤ text.length)
    (behind : ∀ extent ∈ extents, position ≤ extent.start ∧ extent.start ≤ extent.stop) :
    (extents.foldl delete text).take position = text.take position := by
  induction extents generalizing text with
  | nil => rfl
  | cons extent extents ih =>
      obtain ⟨⟨hstart, hstop⟩, hlater⟩ := List.forall_mem_cons.mp behind
      have hfirst := take_delete inside hstart hstop
      have hlength : position ≤ (delete text extent).length := by
        have := congrArg List.length hfirst
        rw [List.length_take, List.length_take] at this
        omega
      rw [List.foldl_cons, ih hlength hlater, hfirst]

/-- Where extents are listed does not matter to what lies outside of them. -/
theorem uncovered_perm {others : List Extent} (perm : List.Perm others extents) (text : Text) :
    uncovered others position text = uncovered extents position text := by
  refine congrArg (List.map _) (List.filter_congr fun entry _ => ?_)
  rw [perm.any_eq]

end Delete

/-! ## Disjoint extents -/

section Disjoint

variable {text : Text} {extents : List Extent}

theorem Disjoint.symm {first second : Extent} (disjoint : Disjoint first second) :
    Disjoint second first :=
  Or.symm disjoint

/-- Sorting disjoint extents and turning them around puts them in order. -/
theorem ascending_sort (disjoint : extents.Pairwise Disjoint)
    (nonempty : ∀ extent ∈ extents, extent.start < extent.stop)
    (inside : ∀ extent ∈ extents, extent.stop ≤ text.length) :
    Ascending text.length 0 (sort extents).reverse := by
  have hperm : List.Perm (sort extents).reverse extents :=
    (List.reverse_perm _).trans (sort_perm extents)
  refine ascending_of_pairwise (List.pairwise_reverse.mpr (pairwise_sort extents)) ?_ ?_ ?_ ?_
  · exact (hperm.pairwise_iff Disjoint.symm).mpr disjoint
  · exact fun extent member => nonempty extent (hperm.mem_iff.mp member)
  · exact fun extent member => inside extent (hperm.mem_iff.mp member)
  · exact fun extent _ => Nat.zero_le _

theorem deleteAll_eq_uncovered (disjoint : extents.Pairwise Disjoint)
    (nonempty : ∀ extent ∈ extents, extent.start < extent.stop)
    (inside : ∀ extent ∈ extents, extent.stop ≤ text.length) :
    deleteAll text extents = uncovered extents 0 text := by
  have hascending := ascending_sort disjoint nonempty inside
  have hsorted : deleteAll text extents = deleteAll text (sort extents).reverse := by
    rw [deleteAll, deleteAll, sort_of_pairwise hascending.pairwise, List.reverse_reverse]
  have hcarved : deleteAll text (sort extents).reverse =
      carve 0 text (sort extents).reverse :=
    @deleteAll_eq_carve (sort extents).reverse [] text hascending
  rw [hsorted, hcarved, carve_eq_uncovered (by simpa using hascending)]
  exact uncovered_perm ((List.reverse_perm _).trans (sort_perm extents)) text

/-- Deleting disjoint extents of a text, none of them empty, leaves exactly the
characters outside of all of them, in whichever order the extents are listed. When it
is an extent's turn, the text up to its end is still the one at the start, so that its
positions need not be limited. -/
theorem deleteAll_disjoint (disjoint : extents.Pairwise Disjoint)
    (nonempty : ∀ extent ∈ extents, extent.start < extent.stop)
    (inside : ∀ extent ∈ extents, extent.stop ≤ text.length) :
    deleteAll text extents = uncovered extents 0 text ∧
    (∀ others, List.Perm others extents → deleteAll text others = deleteAll text extents) ∧
    (∀ done extent rest, sort extents = done ++ extent :: rest →
      let left := done.foldl delete text
      left.take extent.stop = text.take extent.stop ∧
        min extent.stop left.length = extent.stop ∧
        min extent.start (min extent.stop left.length) = extent.start) := by
  refine ⟨deleteAll_eq_uncovered disjoint nonempty inside, ?_, ?_⟩
  · intro others hperm
    have hothers : deleteAll text others = uncovered others 0 text :=
      deleteAll_eq_uncovered ((hperm.pairwise_iff Disjoint.symm).mpr disjoint)
        (fun extent member => nonempty extent (hperm.mem_iff.mp member))
        (fun extent member => inside extent (hperm.mem_iff.mp member))
    rw [hothers, uncovered_perm hperm, deleteAll_eq_uncovered disjoint nonempty inside]
  · intro done extent rest hsort left
    have hlisted : ∀ other ∈ done ++ extent :: rest, other ∈ extents :=
      fun other member => (sort_perm extents).mem_iff.mp (hsort ▸ member)
    have hextent : extent ∈ extents := hlisted extent (by simp)
    have hnonempty := nonempty extent hextent
    have hinside := inside extent hextent
    -- Whatever has been deleted before starts behind the end of this extent.
    have hordered := pairwise_sort extents
    have hdisjoint := ((sort_perm extents).pairwise_iff Disjoint.symm).mpr disjoint
    rw [hsort] at hordered hdisjoint
    have hbehind : ∀ other ∈ done, extent.stop ≤ other.start ∧ other.start ≤ other.stop := by
      intro other member
      have hother := nonempty other (hlisted other (List.mem_append_left _ member))
      have hle := (List.pairwise_append.mp hordered).2.2 other member extent List.mem_cons_self
      have hapart := (List.pairwise_append.mp hdisjoint).2.2 other member extent
        List.mem_cons_self
      rcases hapart with hbefore | hafter <;> omega
    have htake : left.take extent.stop = text.take extent.stop := take_foldl_delete hinside hbehind
    have hlength := congrArg List.length htake
    rw [List.length_take, List.length_take] at hlength
    exact ⟨htake, by omega, by omega⟩

theorem deleteAll_disjoint_touching :
    let text := "abcdefg".toList
    let extents : List Extent := [⟨2, 4⟩, ⟨6, 7⟩, ⟨1, 2⟩]
    extents.Pairwise Disjoint ∧ (∀ extent ∈ extents, extent.start < extent.stop) ∧
    (∀ extent ∈ extents, extent.stop ≤ text.length) ∧
    deleteAll text extents = "aef".toList ∧ uncovered extents 0 text = "aef".toList ∧
    deleteAll text extents.reverse = "aef".toList ∧
    (extents.foldl delete text) ≠ "aef".toList := by
  intro text extents
  have disjoint : extents.Pairwise Disjoint := by decide
  have nonempty : ∀ extent ∈ extents, extent.start < extent.stop := by decide
  have inside : ∀ extent ∈ extents, extent.stop ≤ text.length := by decide
  obtain ⟨hleft, hperm, -⟩ := deleteAll_disjoint disjoint nonempty inside
  have hdone : uncovered extents 0 text = "aef".toList := by decide
  rw [hdone] at hleft
  exact ⟨disjoint, nonempty, inside, hleft, hdone,
    (hperm _ (List.reverse_perm _)).trans hleft, by decide⟩

end Disjoint

end Deinstrument.Extent
