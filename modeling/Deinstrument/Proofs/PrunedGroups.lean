import Deinstrument.Proofs.Carving
import Deinstrument.Proofs.Pruning

/-!
# Groups without one specification

When a specification goes, what is left of the texts around it becomes one text
between its neighbours. That text separates them as the text in front of the
specification did, unless the specification was ended by a semicolon, which
would stay behind. So a group without one of its specifications is a group.
-/

namespace Deinstrument.Go

open Extent (LineCut around wholeLines)
open Import (extentOf)

/-! ## Texts that merge -/

/-- A text between tokens that takes the place of another: its front as far as a
line break, or all of it, with other blanks behind. -/
inductive Merges (gap : Text) : Text → Prop
  | whole {blanks : Text} (passed : Blanks true blanks) : Merges gap (gap ++ blanks)
  | trimmed {kept dropped blanks : Text} (split : gap = kept ++ dropped)
      (blank : ∀ character ∈ dropped, Text.isBlank character = true)
      (ends : kept.getLast? = some '\n') (passed : Blanks true blanks) :
      Merges gap (kept ++ blanks)

theorem Merges.refl (gap : Text) : Merges gap gap := by
  have hwhole : Merges gap (gap ++ []) := .whole .nil
  rwa [List.append_nil] at hwhole

theorem Blanks.merges {gap merged : Text} (passed : Blanks true gap) (merges : Merges gap merged) :
    Blanks true merged := by
  cases merges with
  | whole others => exact passed.append others
  | trimmed split blank ends others =>
      subst split
      exact (passed.trim blank (.inr ends)).append others

theorem Separator.merges {semicolon : Bool} {gap merged : Text}
    (separates : Separator semicolon gap) (merges : Merges gap merged) :
    Separator semicolon merged := by
  cases separates with
  | @mk front blanks terminator passed =>
      cases merges with
      | whole others =>
          rw [List.append_assoc]
          exact .mk terminator (passed.append others)
      | trimmed split blank ends others =>
          obtain ⟨rest, rfl, hrest⟩ := terminator.trim passed split blank ends
          rw [List.append_assoc]
          exact .mk terminator (hrest.append others)

/-! ## What is left around an extent -/

/-- Whether a semicolon is the next thing on a line. -/
def isSemicolonNext (text : Text) : Bool :=
  (text.drop (inlineLength text)).head? == some ';'

theorem Terminator.isSemicolonNext {text : Text} (terminator : Terminator true text)
    (more : Text) : isSemicolonNext (text ++ more) = true := by
  cases terminator with
  | semicolon inline =>
      rw [Go.isSemicolonNext, List.append_assoc, inline.drop_inlineLength, List.singleton_append,
        drop_inlineLength_of_ne (.inl (by decide)) (by decide)]
      rfl

/-- A separator without a semicolon is nothing but blanks. -/
theorem Separator.blanks {semicolon : Bool} {gap : Text} (separates : Separator semicolon gap)
    {more : Text} (plain : isSemicolonNext (gap ++ more) = false) : Blanks true gap := by
  cases separates with
  | mk terminator passed =>
      cases semicolon with
      | true =>
          rw [List.append_assoc, terminator.isSemicolonNext] at plain
          cases plain
      | false => exact terminator.blanks.append passed

theorem Blanks.tail {blanks : Text} (passed : Blanks true ('\n' :: blanks)) :
    Blanks true blanks := by
  cases passed with
  | space character space inline later => exact later

/-- Blanks in front of a token that lose the rest of a line are blanks. -/
theorem Blanks.lineCut {behind more taken rest : Text} {next : Char}
    (passed : Blanks true behind) (mark : isMark next = true)
    (ends : isLineEnd (behind ++ next :: more) = true)
    (cut : LineCut (behind ++ next :: more) taken rest) :
    ∃ blanks, behind = taken ++ blanks ∧ Blanks true blanks := by
  obtain ⟨hsolid, hblank⟩ := Bool.and_eq_true_iff.mp mark
  have hslash : next ≠ '/' := bne_iff_ne.mp (Bool.and_eq_true_iff.mp hsolid).2
  have hblank : Text.isBlank next = false := by simpa using hblank
  obtain ⟨blanks, hbehind, hblanks⟩ := passed.exists_of_isLineEnd hblank hslash ends
  have hback : behind ++ next :: more =
      lineRest (behind ++ next :: more) ++ '\n' :: (blanks ++ next :: more) := by
    conv => lhs; rw [hbehind]
    simp
  cases cut with
  | final whole =>
      refine absurd ?_ (Extent.newline_not_mem_lineRest (behind ++ next :: more))
      rw [whole, hback]
      simp
  | line split => exact ⟨blanks, by simpa using hbehind, hblanks⟩
  | blank split =>
      have hnewline := List.append_cancel_left (hback.symm.trans split)
      cases blanks with
      | nil =>
          cases hnewline
          cases hblank
      | cons first blanks =>
          cases hnewline
          exact ⟨blanks, by simpa using hbehind, hblanks.tail⟩

/-- What an extent leaves between two tokens when it goes with its lines. -/
theorem exists_merges {front behind : Text} {last next : Char}
    (ends : front.getLast? = some last) (solid : Text.isBlank last = false)
    (passed : Blanks true behind) (mark : isMark next = true) (gap core more : Text) :
    ∃ kept taken blanks, gap ++ core ++ behind = kept ++ taken ++ blanks ∧
      Merges gap (kept ++ blanks) ∧
      wholeLines (front ++ gap ++ core ++ (behind ++ next :: more)) (around front gap core) =
        ⟨(front ++ kept).length, (front ++ kept ++ taken).length⟩ := by
  have hne : last ≠ '\n' := by
    rintro rfl
    cases solid
  rcases Extent.wholeLines_around ends (.inr solid) gap core (behind ++ next :: more)
    (.inl hne) with hnarrow | ⟨kept, dropped, taken, rest, rfl, hblank, hlast, hline, hcut, hwide⟩
  · exact ⟨gap, core, behind, rfl, .whole passed, hnarrow⟩
  · obtain ⟨blanks, rfl, hblanks⟩ := passed.lineCut mark hline hcut
    have hkept : kept.getLast? = some '\n' := by
      rcases eq_nil_or_getLast? hlast with rfl | hkept
      · rw [List.append_nil, ends] at hlast
        exact absurd (Option.some.inj hlast) hne
      · exact hkept
    refine ⟨kept, dropped ++ core ++ taken, blanks, by simp, .trimmed rfl hblank hkept hblanks, ?_⟩
    rw [hwide]
    simp

/-! ## Lines of a group -/

theorem SpecLines.uncons {item : Spaced Node} {rest : List (Spaced Node)}
    (lines : SpecLines (item :: rest)) (goes : rest ≠ []) :
    IsSpec item.value ∧ (∃ semicolon, Separator semicolon item.gap) ∧ SpecLines rest := by
  cases lines with
  | last isSpec closes => exact absurd rfl goes
  | cons isSpec separates later => exact ⟨isSpec, ⟨_, separates⟩, later⟩

/-- Specifications with the texts behind them, or the end of the group if there
are none. -/
def closing : List (Spaced Node) → Text
  | [] => [')']
  | item :: rest => Node.textItems (item :: rest)

/-- One more specification in front of what is left of a group. -/
theorem exists_closing_cons {spec : Node} (isSpec : IsSpec spec) {semicolon : Bool} {gap : Text}
    (separates : Separator semicolon gap) {items : List (Spaced Node)}
    (rest : items = [] ∨ SpecLines items) :
    ∃ lines, SpecLines lines ∧ closing lines = spec.text ++ gap ++ closing items := by
  rcases rest with rfl | later
  · refine ⟨_, .last isSpec (.inr ⟨semicolon, separates⟩), ?_⟩
    simp [closing, Node.textItems]
  · cases items with
    | nil => cases later
    | cons item items => exact ⟨_, .cons isSpec separates later, rfl⟩

theorem exists_group {blanks : Text} (passed : Blanks true blanks) {items : List (Spaced Node)}
    (rest : items = [] ∨ SpecLines items) :
    ∃ list, IsGroup list ∧ list.text = '(' :: blanks ++ closing items := by
  rcases rest with rfl | lines
  · exact ⟨_, .empty 0 passed, List.append_nil _⟩
  · cases items with
    | nil => cases lines
    | cons item items => exact ⟨_, .lines 0 passed lines, rfl⟩

/-- Taking one specification out of a group: the texts around it merge, and the
end of the group follows if it was the last. -/
theorem exists_pruned_lines {before after : List (Spaced Node)} {spec : Node} {gap : Text}
    (lines : SpecLines (before ++ ⟨spec, gap⟩ :: after)) {front more : Text} {last : Char}
    (ends : front.getLast? = some last) (solid : Text.isBlank last = false)
    (plain : isSemicolonNext (gap ++ Node.textItems after ++ more) = false) (lead : Text) :
    ∃ kept taken rest merged items,
      lead ++ Node.textItems (before ++ ⟨spec, gap⟩ :: after) = kept ++ taken ++ rest ∧
      kept ++ rest = merged ++ closing items ∧ Merges lead merged ∧
      (items = [] ∨ SpecLines items) ∧
      wholeLines (front ++ lead ++ Node.textItems (before ++ ⟨spec, gap⟩ :: after) ++ more)
          (around front (lead ++ Node.textItems before) spec.text) =
        ⟨(front ++ kept).length, (front ++ kept ++ taken).length⟩ := by
  induction before generalizing front lead last with
  | nil =>
      rw [List.nil_append] at lines
      cases lines with
      | @last spec gap isSpec closes =>
          have hblanks : Blanks true gap := by
            rcases closes with hblanks | ⟨semicolon, separates⟩
            · exact hblanks
            · rw [List.append_assoc, List.append_assoc] at plain
              exact separates.blanks plain
          have hmark : isMark ')' = true := rfl
          obtain ⟨kept, taken, blanks, hsplit, hmerges, hwide⟩ :=
            exists_merges ends solid hblanks hmark lead spec.text more
          refine ⟨kept, taken, blanks ++ [')'], kept ++ blanks, [], ?_, ?_, hmerges, .inl rfl, ?_⟩
          · have hall : lead ++ Node.textItems ([] ++ [⟨spec, gap ++ [')']⟩]) =
                lead ++ spec.text ++ gap ++ [')'] := by
              simp [Node.textItems]
            rw [hall, hsplit, List.append_assoc]
          · simp [closing]
          · rw [← hwide]
            simp [Node.textItems]
      | cons isSpec separates later =>
          cases after with
          | nil => cases later
          | cons item after =>
              obtain ⟨next, text, hnext, hmark, -⟩ := later.isSpec_head.text.exists_cons
              rw [List.append_assoc] at plain
              obtain ⟨kept, taken, blanks, hsplit, hmerges, hwide⟩ :=
                exists_merges ends solid (separates.blanks plain) hmark lead spec.text
                  (text ++ item.gap ++ Node.textItems after ++ more)
              refine ⟨kept, taken, blanks ++ Node.textItems (item :: after), kept ++ blanks,
                item :: after, ?_, ?_, hmerges, .inr later, ?_⟩
              · have hall : lead ++ Node.textItems ([] ++ ⟨spec, gap⟩ :: item :: after) =
                    lead ++ spec.text ++ gap ++ Node.textItems (item :: after) := by
                  simp [Node.textItems]
                rw [hall, hsplit, List.append_assoc]
              · simp [closing]
              · rw [← hwide]
                simp [Node.textItems, hnext]
  | cons item before ih =>
      obtain ⟨prev, between⟩ := item
      obtain ⟨isSpec, ⟨semicolon, separates⟩, later⟩ := lines.uncons (by simp)
      obtain ⟨quote, hquote, hsolid⟩ : ∃ quote, prev.text.getLast? = some quote ∧
          Text.isBlank quote = false := by
        rcases isSpec.text.getLast? with hquote | hquote
        · exact ⟨_, hquote, rfl⟩
        · exact ⟨_, hquote, rfl⟩
      have hends : (front ++ lead ++ prev.text).getLast? = some quote :=
        getLast?_append_of_some hquote
      obtain ⟨kept, taken, rest, merged, items, hsplit, hrest, hmerges, hitems, hwide⟩ :=
        ih later hends hsolid between
      obtain ⟨lines, hlines, hclosing⟩ :=
        exists_closing_cons isSpec (separates.merges hmerges) hitems
      refine ⟨lead ++ prev.text ++ kept, taken, rest, lead, lines, ?_, ?_, .refl lead,
        .inr hlines, ?_⟩
      · have hall : lead ++ Node.textItems (⟨prev, between⟩ :: before ++ ⟨spec, gap⟩ :: after) =
            lead ++ prev.text ++ (between ++ Node.textItems (before ++ ⟨spec, gap⟩ :: after)) := by
          simp [Node.textItems]
        rw [hall, hsplit]
        simp
      · rw [hclosing, List.append_assoc, hrest]
        simp
      · rw [List.cons_append, Node.textItems, Node.textItems]
        simpa [around] using hwide

/-! ## Declarations -/

theorem exists_of_mem_positions {position : Nat} {items : List (Spaced Node)} {mark : Nat × Node}
    (member : mark ∈ Node.positions position items) :
    ∃ before gap after, items = before ++ ⟨mark.2, gap⟩ :: after ∧
      mark.1 = position + (Node.textItems before).length := by
  induction items generalizing position with
  | nil => cases member
  | cons item items ih =>
      obtain ⟨node, gap⟩ := item
      rcases List.mem_cons.mp member with rfl | member
      · exact ⟨[], gap, items, rfl, rfl⟩
      · obtain ⟨before, behind, after, rfl, hposition⟩ := ih member
        refine ⟨⟨node, gap⟩ :: before, behind, after, rfl, ?_⟩
        rw [hposition, Node.textItems]
        simp only [List.length_append]
        omega

/-- One of several specifications of a declaration is in a group. -/
theorem exists_of_mem_specNodes {node : Node} (isDeclaration : IsDeclaration node)
    {position : Nat} {target : Nat × Node} (member : target ∈ Import.specNodes position node)
    (several : 1 < (Import.specNodes position node).length) :
    ∃ blanks lead before gap after, Blanks true blanks ∧ Blanks true lead ∧
      SpecLines (before ++ ⟨target.2, gap⟩ :: after) ∧
      node.text = "import".toList ++ blanks ++ ['('] ++ lead ++
        Node.textItems (before ++ ⟨target.2, gap⟩ :: after) ∧
      target.1 = position +
        ("import".toList ++ blanks ++ ['('] ++ lead ++ Node.textItems before).length := by
  cases isDeclaration with
  | single line passed ends isSpec =>
      rw [Import.specNodes_eq, isSpec.kind] at several
      exact absurd several (Nat.lt_irrefl 1)
  | @group line blanks list passed isGroup =>
      cases isGroup with
      | empty inner passed => exact absurd several (Nat.not_lt_zero 1)
      | @lines inner lead passedInside items lines =>
          rw [Import.specNodes_lines lines] at member
          obtain ⟨before, gap, after, rfl, hposition⟩ := exists_of_mem_positions member
          refine ⟨blanks, lead, before, gap, after, passed, passedInside, lines, ?_, ?_⟩
          · simp [Node.text, Node.textItems]
          · rw [hposition]
            simp only [List.length_append, List.length_cons, List.length_nil]
            omega

/-- A declaration without one of several specifications is a declaration. -/
theorem exists_pruned_declaration {node : Node} (isDeclaration : IsDeclaration node)
    {front back : Text} {target : Nat × Node}
    (member : target ∈ Import.specNodes front.length node)
    (several : 1 < (Import.specNodes front.length node).length)
    (plain : isSemicolonNext ((front ++ node.text ++ back).drop (extentOf target).stop) = false) :
    ∃ kept taken rest pruned, node.text = kept ++ taken ++ rest ∧ pruned.text = kept ++ rest ∧
      IsDeclaration pruned ∧
      wholeLines (front ++ node.text ++ back) (extentOf target) =
        ⟨(front ++ kept).length, (front ++ kept ++ taken).length⟩ := by
  obtain ⟨blanks, lead, before, gap, after, passed, passedInside, lines, htext, hposition⟩ :=
    exists_of_mem_specNodes isDeclaration member several
  -- The group from its parenthesis on.
  let opening := front ++ "import".toList ++ blanks ++ ['(']
  have hsource : front ++ node.text ++ back =
      opening ++ lead ++ Node.textItems (before ++ ⟨target.2, gap⟩ :: after) ++ back := by
    simp [opening, htext]
  have hextent : extentOf target = around opening (lead ++ Node.textItems before) target.2.text := by
    simp only [extentOf, around, hposition, opening, List.length_append]
    congr 1 <;> omega
  have hends : opening.getLast? = some '(' := List.getLast?_concat
  have hplain : isSemicolonNext (gap ++ Node.textItems after ++ back) = false := by
    have hpieces : opening ++ lead ++ Node.textItems (before ++ ⟨target.2, gap⟩ :: after) ++ back =
        opening ++ (lead ++ Node.textItems before) ++ target.2.text ++
          (gap ++ Node.textItems after ++ back) := by
      simp [Node.textItems]
    rwa [hsource, hextent, hpieces, Extent.drop_around] at plain
  obtain ⟨kept, taken, rest, merged, others, hsplit, hrest, hmerges, hothers, hwide⟩ :=
    exists_pruned_lines lines hends rfl hplain lead
  obtain ⟨list, isGroup, hlist⟩ := exists_group (passedInside.merges hmerges) hothers
  refine ⟨"import".toList ++ blanks ++ ['('] ++ kept, taken, rest, _, ?_, ?_,
    .group 0 passed isGroup, ?_⟩
  · rw [htext, List.append_assoc _ lead, hsplit]
    simp
  · rw [Node.text, Node.textItems, hlist, List.append_assoc _ kept, hrest]
    simp [Node.textItems]
  · rw [hsource, hextent, hwide]
    simp [opening]

end Deinstrument.Go
