import Deinstrument.Cut
import Mathlib.Data.List.Flatten

/-!
# Deleting text

One text arises from another by deletion when it can be had by leaving
characters out. Dropping comments from a statement, taking comments off it and
cutting statements out of a block all delete text in this sense, although each
of them also moves text or puts line feeds somewhere else. Every comment that
is dropped costs at least one character.
-/

namespace Deinstrument

/-- A text that is left of a source when at least `least` characters are
deleted from it. -/
structure Text.Deletion (least : Nat) (result source : Text) : Prop where
  sublist : List.Sublist result source
  length_le : result.length + least ≤ source.length

namespace Text.Deletion

theorem refl (text : Text) : Deletion 0 text text :=
  ⟨.refl text, Nat.le_refl _⟩

theorem of_sublist {result source : Text} (sublist : List.Sublist result source) :
    Deletion 0 result source :=
  ⟨sublist, sublist.length_le⟩

theorem mono {less least : Nat} {result source : Text} (bound : less ≤ least)
    (deletion : Deletion least result source) : Deletion less result source :=
  ⟨deletion.sublist, by have := deletion.length_le; omega⟩

theorem of_eq {least : Nat} {result result' source source' : Text}
    (deletion : Deletion least result source) (hresult : result' = result)
    (hsource : source' = source) : Deletion least result' source' := by
  rw [hresult, hsource]
  exact deletion

/-- Deletions one after the other. -/
theorem trans {first second : Nat} {result middle source : Text}
    (late : Deletion second result middle) (early : Deletion first middle source) :
    Deletion (first + second) result source := by
  refine ⟨late.sublist.trans early.sublist, ?_⟩
  have hlate := late.length_le
  have hearly := early.length_le
  omega

/-- Deletions side by side. -/
theorem append {left right : Nat} {result source result' source' : Text}
    (front : Deletion left result source) (back : Deletion right result' source') :
    Deletion (left + right) (result ++ result') (source ++ source') := by
  refine ⟨front.sublist.append back.sublist, ?_⟩
  have hfront := front.length_le
  have hback := back.length_le
  simp only [List.length_append]
  omega

/-- A deletion in the middle of a text. -/
theorem within (front : Text) {least : Nat} {result source : Text}
    (deletion : Deletion least result source) (back : Text) :
    Deletion least (front ++ result ++ back) (front ++ source ++ back) := by
  have wrapped := ((refl front).append deletion).append (refl back)
  simpa using wrapped

/-- A text from which something was deleted is another text. -/
theorem ne {least : Nat} {result source : Text} (deletion : Deletion least result source)
    (positive : 0 < least) : result ≠ source := by
  intro equal
  have hlength := deletion.length_le
  rw [equal] at hlength
  omega

end Text.Deletion

open Text (Deletion)

@[simp]
theorem Marker.isOn_nil (marker : Marker) : marker.isOn [] = false := by
  cases marker <;> rfl

/-- Entries that are filtered out are deleted. -/
theorem filter_deletion (keeps : Text → Bool) (entries : List Text) :
    Deletion 0 (entries.filter keeps).flatten entries.flatten :=
  .of_sublist List.filter_sublist.flatten

theorem filter_deletion_of_mem {keeps : Text → Bool} {entries : List Text} {entry : Text}
    (member : entry ∈ entries) (nonempty : entry ≠ []) (dropped : keeps entry = false) :
    Deletion 1 (entries.filter keeps).flatten entries.flatten := by
  obtain ⟨front, back, rfl⟩ := List.append_of_mem member
  have hentry : Deletion 1 [] entry :=
    ⟨List.nil_sublist entry, by
      have := List.length_pos_iff.mpr nonempty
      simp only [List.length_nil]
      omega⟩
  have whole := (filter_deletion keeps front).append (hentry.append (filter_deletion keeps back))
  refine whole.of_eq ?_ (by simp)
  rw [List.filter_append, List.filter_cons_of_neg (by simp [dropped]), List.flatten_append]
  rfl

/-! ## Blank lines that move on -/

namespace Stmt

/-- Blank lines on their way to a text were part of it or are given up. -/
theorem carry_deletion (blank : Nat) (text : Text) :
    Deletion 0 (carry blank text) (List.replicate blank '\n' ++ text) := by
  unfold carry
  split
  · exact .refl _
  · exact .of_sublist (List.sublist_append_right _ _)

@[simp]
theorem body_carry (blank : Nat) (entry : Text) :
    Comment.body (carry blank entry) = Comment.body entry := by
  unfold carry
  split
  · induction blank with
    | zero => rfl
    | succ blank ih =>
        rw [List.replicate_succ, List.cons_append, Comment.body, List.dropWhile_cons]
        exact ih
  · rfl

/-- The blank lines in front of a comment are fewer than its characters. -/
theorem blankLines_deletion {entry : Text} (nonempty : entry ≠ []) :
    Deletion 1 (List.replicate (blankLines entry) '\n') entry := by
  have hcount : Text.breaks (entry.takeWhile Text.isBlank) ≤ entry.count '\n' :=
    (List.takeWhile_sublist Text.isBlank).count_le '\n'
  have hlength : entry.count '\n' ≤ entry.length := List.count_le_length
  have hpositive : 0 < entry.length := List.length_pos_iff.mpr nonempty
  refine ⟨?_, ?_⟩
  · rw [List.replicate_sublist_iff, blankLines]
    omega
  · rw [List.length_replicate, blankLines]
    omega

/-! ## Dropped comments -/

theorem dropEntries_cons_drop {drops : Text → Bool} {blank : Nat} {first : Text}
    {rest : List Text} {space : Text} (hdrops : drops (Comment.body first) = true) :
    dropEntries drops blank (first :: rest) space =
      ((dropEntries drops (blankLines (carry blank first)) rest space).1,
        (dropEntries drops (blankLines (carry blank first)) rest space).2.1,
        (dropEntries drops (blankLines (carry blank first)) rest space).2.2 + 1) := by
  simp [dropEntries, hdrops]

theorem dropEntries_cons_keep {drops : Text → Bool} {blank : Nat} {first : Text}
    {rest : List Text} {space : Text} (hkeeps : ¬drops (Comment.body first) = true) :
    dropEntries drops blank (first :: rest) space =
      (carry blank first :: (dropEntries drops 0 rest space).1,
        (dropEntries drops 0 rest space).2.1, (dropEntries drops 0 rest space).2.2) := by
  simp [dropEntries, hkeeps]

/-- Dropping entries deletes a character for each of them, when the blank
lines that are on their way count as part of the source. -/
theorem dropEntries_deletion {drops : Text → Bool} (keepsEmpty : drops [] = false)
    (blank : Nat) (entries : List Text) (space : Text) :
    Deletion (dropEntries drops blank entries space).2.2
      ((dropEntries drops blank entries space).1.flatten ++
        (dropEntries drops blank entries space).2.1)
      (List.replicate blank '\n' ++ (entries.flatten ++ space)) := by
  induction entries generalizing blank with
  | nil => exact carry_deletion blank space
  | cons first rest ih =>
      have hcarry := carry_deletion blank first
      by_cases hdrops : drops (Comment.body first) = true
      · have nonempty : carry blank first ≠ [] := by
          intro hnil
          have hbody : Comment.body first = [] := by
            rw [← body_carry blank first, hnil]
            rfl
          rw [hbody, keepsEmpty] at hdrops
          exact Bool.false_ne_true hdrops
        have hlines := (blankLines_deletion nonempty).trans hcarry
        have later := (ih (blankLines (carry blank first))).trans
          (hlines.append (.refl (rest.flatten ++ space)))
        rw [dropEntries_cons_drop hdrops]
        dsimp only
        exact (later.mono (by omega)).of_eq rfl (by simp)
      · have later := hcarry.append (ih 0)
        rw [dropEntries_cons_keep hdrops]
        dsimp only
        exact (later.mono (by omega)).of_eq (by simp) (by simp)

/-- Exactly the entries whose comment satisfies the condition are dropped. -/
theorem dropEntries_count (drops : Text → Bool) (blank : Nat) (entries : List Text)
    (space : Text) :
    (dropEntries drops blank entries space).2.2 =
      entries.countP fun entry => drops (Comment.body entry) := by
  induction entries generalizing blank with
  | nil => rfl
  | cons first rest ih =>
      by_cases hdrops : drops (Comment.body first) = true
      · rw [dropEntries_cons_drop hdrops, List.countP_cons, if_pos hdrops]
        exact congrArg (· + 1) (ih _)
      · rw [dropEntries_cons_keep hdrops, List.countP_cons, if_neg hdrops]
        exact ih 0

variable {Action : Type} (action : Action → Text)

theorem dropBefore_deletion {drops : Text → Bool} (keepsEmpty : drops [] = false)
    (stmt : Stmt Action) :
    Deletion (stmt.dropBefore drops).2 ((stmt.dropBefore drops).1.print action)
      (stmt.print action) := by
  have hentries := dropEntries_deletion keepsEmpty 0 stmt.before stmt.space
  have whole := hentries.append
    (.refl (action stmt.action ++ stmt.terminator ++ stmt.after.flatten))
  exact whole.of_eq (by simp [dropBefore, print]) (by simp [print])

theorem dropAfter_deletion (drops : Text → Bool) (stmt : Stmt Action) :
    Deletion 0 ((stmt.dropAfter drops).1.print action) (stmt.print action) := by
  have hentries := filter_deletion (fun entry => !drops (Comment.body entry)) stmt.after
  exact (Deletion.refl (stmt.before.flatten ++ stmt.space ++ action stmt.action ++
    stmt.terminator)).append hentries

/-! ## Markers -/

theorem stripBefore_deletion (stmt : Stmt Action) (marker : Marker) :
    Deletion (stmt.stripBefore marker).2 ((stmt.stripBefore marker).1.print action)
      (stmt.print action) :=
  dropBefore_deletion action marker.isOn_nil stmt

theorem stripAfter_deletion (stmt : Stmt Action) (marker : Marker) :
    Deletion 0 ((stmt.stripAfter marker).1.print action) (stmt.print action) :=
  dropAfter_deletion action marker.isOn stmt

theorem strip_deletion (stmt : Stmt Action) (marker : Marker) :
    Deletion (stmt.stripBefore marker).2 ((stmt.strip marker).1.print action)
      (stmt.print action) := by
  have hbefore := stripBefore_deletion action stmt marker
  have hafter := stripAfter_deletion action (stmt.stripBefore marker).1 marker
  exact (hafter.trans hbefore).mono (Nat.le_refl _)

/-- A marker above a statement is dropped with the markers of its kind. -/
theorem stripBefore_pos {stmt : Stmt Action} {marker : Marker}
    (present : stmt.hasBefore marker = true) : 0 < (stmt.stripBefore marker).2 := by
  have hcount : (stmt.stripBefore marker).2 =
      stmt.before.countP fun entry => marker.isOn (Comment.body entry) :=
    dropEntries_count marker.isOn 0 stmt.before stmt.space
  rw [hcount, List.countP_pos_iff]
  exact List.any_eq_true.mp present

/-- Detached comments and the rest of the statement print as the statement. -/
theorem detach_print (stmt : Stmt Action) (marker : Marker) :
    (stmt.detach marker).1.flatten ++ (stmt.detach marker).2.print action =
      stmt.print action := by
  unfold detach
  split
  · rename_i position hposition
    have joined : (stmt.before.take position).flatten ++ (stmt.before.drop position).flatten =
        stmt.before.flatten := by
      rw [← List.flatten_append, List.take_append_drop]
    simp only [print, ← joined, List.append_assoc]
  · rfl

/-- The marker in front of which comments are taken off stays in place. -/
theorem hasBefore_detach {stmt : Stmt Action} {marker : Marker}
    (present : stmt.hasBefore marker = true) :
    (stmt.detach marker).2.hasBefore marker = true := by
  unfold detach
  split
  · rename_i position hposition
    obtain ⟨hbound, hmarker, -⟩ := List.findIdx?_eq_some_iff_getElem.mp hposition
    have hkind := of_decide_eq_true hmarker
    have hon := List.find?_some hkind
    refine List.any_eq_true.mpr ⟨stmt.before[position], ?_, hon⟩
    exact List.mem_drop_iff_getElem.mpr ⟨0, by simpa using hbound, by simp⟩
  · exact present

@[simp]
theorem print_attach (entries : List Text) (stmt : Stmt Action) :
    (stmt.attach entries).print action = entries.flatten ++ stmt.print action := by
  simp [attach, print]

/-- The text of statements in order. -/
def printAll (stmts : List (Stmt Action)) : Text :=
  stmts.flatMap (print action)

@[simp]
theorem printAll_nil : printAll action [] = [] := rfl

@[simp]
theorem printAll_cons (stmt : Stmt Action) (rest : List (Stmt Action)) :
    printAll action (stmt :: rest) = stmt.print action ++ printAll action rest := by
  simp [printAll]

@[simp]
theorem printAll_append (front back : List (Stmt Action)) :
    printAll action (front ++ back) = printAll action front ++ printAll action back := by
  simp [printAll]

end Stmt

/-! ## Cuts -/

namespace Cut

variable {Action : Type} (action : Action → Text)

/-- The text of all statements around and in a cut. -/
def text (cut : Cut Action) : Text :=
  Stmt.printAll action cut.front ++
    (cut.carried.flatten ++ Stmt.printAll action cut.removed) ++ Stmt.printAll action cut.back

/-- The comments that stay in the block were carried, or stood behind the last
statement of the cut. -/
theorem moved_deletion_of_last {least : Nat} {cut : Cut Action} {front : List (Stmt Action)}
    {last : Stmt Action} (hremoved : cut.removed = front ++ [last])
    (kept : Deletion least (last.after.filter stays).flatten last.after.flatten) :
    Deletion least cut.moved.flatten
      (cut.carried.flatten ++ Stmt.printAll action cut.removed) := by
  have hlast := (Deletion.of_sublist (List.nil_sublist (last.before.flatten ++ last.space ++
    action last.action ++ last.terminator))).append kept
  have hfront := Deletion.of_sublist (List.nil_sublist (Stmt.printAll action front))
  have whole := (Deletion.refl cut.carried.flatten).append (hfront.append hlast)
  refine (whole.mono (by omega)).of_eq ?_ ?_
  · simp [moved, hremoved]
  · simp [hremoved, Stmt.print]

theorem moved_deletion (cut : Cut Action) :
    Deletion 0 cut.moved.flatten (cut.carried.flatten ++ Stmt.printAll action cut.removed) := by
  cases hlast : cut.removed.getLast? with
  | none =>
      have hmoved : cut.moved = cut.carried := by simp [moved, hlast]
      rw [hmoved]
      exact .of_sublist (List.sublist_append_left _ _)
  | some last =>
      obtain ⟨front, hremoved⟩ := List.getLast?_eq_some_iff.mp hlast
      exact moved_deletion_of_last action hremoved (filter_deletion stays last.after)

/-- Applying a cut deletes what does not stay of the statements cut out. -/
theorem apply_deletion {least : Nat} {cut : Cut Action}
    (deletion : Deletion least cut.moved.flatten
      (cut.carried.flatten ++ Stmt.printAll action cut.removed)) (block : Block Action) :
    Deletion least ((cut.apply block).print action)
      (block.opening ++ cut.text action ++ block.closing) := by
  have whole := deletion.within (block.opening ++ Stmt.printAll action cut.front)
    (Stmt.printAll action cut.back ++ block.closing)
  refine whole.of_eq ?_ (by simp [text])
  unfold apply
  split
  · rename_i next later hback
    simp [Block.print, Stmt.printAll, hback]
  · rename_i hback
    simp [Block.print, Stmt.printAll, hback]

end Cut

end Deinstrument
