import Deinstrument.Proofs.StraySemicolons

/-!
# What is left of a declaration

An import declaration stays, loses one of several specifications, leaves its line
or goes with its lines. This module says which text is left in front of the items
behind it, and how a source is read that starts with this text.
-/

namespace Deinstrument.Go

open Form
open Extent (LineCut Leaves around wholeLines closesBelow lineStop)
open Import (extentOf targets targetsOf)

/-! ## The end of a source -/

/-- What is read as a terminator at the end of a source. -/
theorem exists_final {text : Text} (ends : text.drop (inlineLength text) = []) :
    ∃ blanks rest, text = blanks ++ rest ∧ Blanks false blanks ∧
      (rest = [] ∨ ∃ words, '\n' ∉ words ∧ rest = '/' :: '/' :: words) := by
  obtain ⟨blanks, rest, htext, hblanks, hrest⟩ := counted false text
  have hdrop : text.drop (blanksOf false text) = [] := ends
  rw [hdrop] at hrest
  refine ⟨blanks, rest, htext, hblanks, hrest.imp_right ?_⟩
  rintro ⟨words, hshort, hwords, -⟩
  exact ⟨words, hshort, by simpa using hwords⟩

theorem afterBlanks_of_final {text : Text} (ends : text.drop (inlineLength text) = []) :
    afterBlanks text = [] := by
  obtain ⟨blanks, rest, rfl, hblanks, rfl | ⟨words, hshort, rfl⟩⟩ := exists_final ends
  · rw [hblanks.of_inline.afterBlanks_append]
    rfl
  · have hcomment := closedLength?_line hshort (.inl rfl)
    rw [List.append_nil] at hcomment
    have hall : ('/' :: '/' :: words).drop (words.length + 2) = [] :=
      List.drop_eq_nil_of_le (Nat.le_refl _)
    have hcount : blankLength ('/' :: '/' :: words) = words.length + 2 := by
      refine (blanksOf_comment true hcomment).trans ?_
      rw [hall]
      rfl
    rw [hblanks.of_inline.afterBlanks_append, afterBlanks, hcount, hall]

theorem lineRest_of_final {text : Text} (ends : text.drop (inlineLength text) = [])
    (line : isLineEnd text = true) : lineRest text = text := by
  obtain ⟨blanks, rest, rfl, hblanks, hrest⟩ := exists_final ends
  rw [(hblanks.isLineEnd_append line).2]
  rcases hrest with rfl | ⟨words, hshort, rfl⟩
  · rfl
  · refine congrArg (blanks ++ ·) (List.takeWhile_eq_self_iff.mpr ?_)
    simp only [List.forall_mem_cons]
    refine ⟨rfl, rfl, fun character member => ?_⟩
    rw [bne_iff_ne]
    exact ne_of_mem_of_not_mem member hshort

/-! ## What becomes of a declaration -/

/-- Whether a node is an import declaration. -/
def isImport (mark : Nat × Node) : Bool :=
  mark.2.kind == .importDeclaration

theorem isImport_of_mem_specNodes {position : Nat} {node : Node} {target : Nat × Node}
    (member : target ∈ Import.specNodes position node) : isImport target = false := by
  obtain ⟨⟨start, child⟩, -, hchild⟩ := List.mem_flatMap.mp member
  have hspec : target.2.kind = .importSpec := by
    simp only at hchild
    split at hchild
    · rename_i hkind
      rw [List.mem_singleton.mp hchild]
      exact hkind
    · exact of_decide_eq_true (List.mem_filter.mp hchild).2
    · cases hchild
  rw [isImport, hspec]
  rfl

/-- Whether an import declaration goes as a whole. -/
def goes (root : Node) (paths : List Text) (mark : Nat × Node) : Bool :=
  isImport mark && (targets root paths mark).any isImport

/-- Whether what goes is a specification of a group and leaves a semicolon there. -/
def breaksGroup (source : Text) (target : Nat × Node) : Bool :=
  !isImport target && isSemicolonNext (source.drop (extentOf target).stop)

/-- The extents that are deleted with a declaration behind blanks, the blanks
starting at a position behind a character. The flags say whether it goes as a whole and
whether its group, if one of several specifications goes, can still be read. -/
inductive Outcome (last : Char) (position : Nat) (blanks : Text) (node : Node) (back : Text) :
    Bool → Bool → List Extent → Prop
  | kept : Outcome last position blanks node back false true []
  /-- One of its specifications goes. -/
  | thinned {kept taken rest : Text} {pruned : Node} (split : node.text = kept ++ taken ++ rest)
      (nonempty : taken ≠ []) (text : pruned.text = kept ++ rest)
      (isDeclaration : IsDeclaration pruned) :
      Outcome last position blanks node back false true [⟨position + (blanks ++ kept).length,
        position + (blanks ++ kept).length + taken.length⟩]
  /-- One of its specifications goes, and a semicolon is left of it. -/
  | stray {kept taken rest words : Text} (split : node.text = kept ++ taken ++ rest)
      (nonempty : taken ≠ []) (starts : kept = 'i' :: words)
      (unread : ∀ more, after .file itemForm (kept ++ rest ++ more) = none) :
      Outcome last position blanks node back false false [⟨position + (blanks ++ kept).length,
        position + (blanks ++ kept).length + taken.length⟩]
  /-- It goes and leaves its line. -/
  | gone : Outcome last position blanks node back true true
      [⟨position + blanks.length, position + blanks.length + node.text.length⟩]
  /-- It goes with its lines. -/
  | lines {kept dropped taken rest : Text} (split : blanks = kept ++ dropped)
      (blank : ∀ character ∈ dropped, Text.isBlank character = true)
      (ends : kept.getLast? = some '\n' ∨ kept = [] ∧ last = '\n')
      (line : isLineEnd back = true) (cut : LineCut back taken rest) :
      Outcome last position blanks node back true true [⟨position + kept.length,
        position + kept.length + (dropped ++ node.text ++ taken).length⟩]

/-- Behind the line of an extent there is no closing parenthesis. -/
theorem closesBelow_around {front gap core back : Text}
    (opens : ∀ rest, back = lineRest back ++ '\n' :: rest →
      Text.startsWith (Text.trimStart rest) [')'] = false) :
    closesBelow (front ++ gap ++ core ++ back)
      (lineStop (front ++ gap ++ core ++ back) (around front gap core)) = false := by
  obtain ⟨taken, rest, -, hback, hline, hstop⟩ := Extent.exists_lineCut front gap core back
  have hdrop : (front ++ gap ++ core ++ back).drop
      (lineStop (front ++ gap ++ core ++ back) (around front gap core)) = rest := by
    rw [hstop, hback, ← List.append_assoc, List.drop_left]
  rw [closesBelow, hdrop]
  rcases hline with rfl | rfl
  · rfl
  · rw [List.append_assoc] at hback
    exact opens rest hback

section Declaration

variable {source front blanks back : Text} {node : Node} {last : Char}

/-- A declaration that goes as a whole leaves its line or goes with it. -/
theorem outcome_of_whole (ends : front.getLast? = some last)
    (edge : last = '\n' ∨ Text.isBlank last = false)
    (opens : isLineEnd back = true → ∀ rest, back = lineRest back ++ '\n' :: rest →
      Text.startsWith (Text.trimStart rest) [')'] = false) :
    Outcome last front.length blanks node back true true
      [wholeLines (front ++ blanks ++ node.text ++ back) (around front blanks node.text)] := by
  rcases Extent.wholeLines_around ends edge blanks node.text back
    (.inr fun line => closesBelow_around (opens line)) with
    hnarrow | ⟨kept, dropped, taken, rest, hsplit, hblank, hlast, hline, hcut, hwide⟩
  · have hposition : around front blanks node.text = ⟨front.length + blanks.length,
        front.length + blanks.length + node.text.length⟩ := by
      simp [around, Nat.add_assoc]
    rw [hnarrow, hposition]
    exact .gone
  · have hposition : (⟨(front ++ kept).length, (front ++ blanks ++ node.text ++ taken).length⟩ :
        Extent) = ⟨front.length + kept.length,
          front.length + kept.length + (dropped ++ node.text ++ taken).length⟩ := by
      simp [hsplit, Nat.add_assoc]
    rw [hwide, hposition]
    refine .lines hsplit hblank ?_ hline hcut
    rcases eq_nil_or_getLast? hlast with rfl | hkept
    · rw [List.append_nil, ends] at hlast
      exact .inr ⟨rfl, Option.some.inj hlast⟩
    · exact .inl hkept

/-- A declaration that loses one of several specifications is thinned, unless a semicolon
stays. -/
theorem outcome_of_spec (isDeclaration : IsDeclaration node)
    (holds : source = front ++ blanks ++ node.text ++ back) {target : Nat × Node}
    (member : target ∈ Import.specNodes (front ++ blanks).length node)
    (several : 1 < (Import.specNodes (front ++ blanks).length node).length) :
    Outcome last front.length blanks node back false (!breaksGroup source target)
      [wholeLines source (extentOf target)] := by
  rcases Import.specNodes_of_declaration isDeclaration holds with hfew | ⟨hmarks, -⟩
  · exact absurd several (Nat.not_lt.mpr hfew)
  · have hmark := hmarks target member
    have hstands := Import.stands_spec hmark.holds hmark.isSpec
    -- The specification itself is among what is taken.
    have hnonempty {kept taken : Text} (hwide : wholeLines source (extentOf target) =
        ⟨(front ++ blanks ++ kept).length, (front ++ blanks ++ kept ++ taken).length⟩) :
        taken ≠ [] := by
      obtain ⟨hstart, hstop, -⟩ := hstands.wholeLines
      have hsome := hstands.nonempty
      rintro rfl
      rw [hwide, List.append_nil] at hstart hstop
      simp only at hstart hstop
      omega
    have hposition (kept taken : Text) : (⟨(front ++ blanks ++ kept).length,
        (front ++ blanks ++ kept ++ taken).length⟩ : Extent) =
        ⟨front.length + (blanks ++ kept).length,
          front.length + (blanks ++ kept).length + taken.length⟩ := by
      simp [Nat.add_assoc]
    rw [breaksGroup, isImport_of_mem_specNodes member, Bool.not_false, Bool.true_and]
    subst holds
    cases hnext : isSemicolonNext ((front ++ blanks ++ node.text ++ back).drop
        (extentOf target).stop) with
    | false =>
        obtain ⟨kept, taken, rest, pruned, hsplit, hpruned, isPruned, hwide⟩ :=
          exists_pruned_declaration isDeclaration member several hnext
        have htaken := hnonempty hwide
        rw [hwide, hposition]
        exact .thinned hsplit htaken hpruned isPruned
    | true =>
        obtain ⟨kept, taken, rest, words, hsplit, hstarts, hunread, hwide⟩ :=
          exists_stray_declaration isDeclaration member several hnext
        have htaken := hnonempty hwide
        rw [hwide, hposition]
        exact .stray hsplit htaken hstarts hunread

theorem outcome_of_declaration (root : Node) (paths : List Text)
    (holds : source = front ++ blanks ++ node.text ++ back)
    (isDeclaration : IsDeclaration node) (ends : front.getLast? = some last)
    (edge : last = '\n' ∨ Text.isBlank last = false)
    (opens : isLineEnd back = true → ∀ rest, back = lineRest back ++ '\n' :: rest →
      Text.startsWith (Text.trimStart rest) [')'] = false)
    (single : (targets root paths (front.length + blanks.length, node)).length ≤ 1) :
    Outcome last front.length blanks node back
      (goes root paths (front.length + blanks.length, node))
      ((targets root paths (front.length + blanks.length, node)).all
        fun target => !breaksGroup source target)
      ((targets root paths (front.length + blanks.length, node)).map
        fun target => wholeLines source (extentOf target)) := by
  have himport (position : Nat) : isImport (position, node) = true :=
    beq_iff_eq.mpr (Import.kind_of_declaration isDeclaration)
  rw [← List.length_append] at single ⊢
  rw [goes, himport, Bool.true_and]
  rcases Import.targets_cases root paths ((front ++ blanks).length, node) with
    hnone | hwhole | ⟨hsublist, hfewer⟩
  · rw [hnone]
    exact .kept
  · have hextent : extentOf ((front ++ blanks).length, node) = around front blanks node.text := by
      simp [extentOf, around, Nat.add_assoc]
    simp only [hwhole, List.map_cons, List.map_nil, List.any_cons, List.any_nil, List.all_cons,
      List.all_nil, breaksGroup, himport, hextent, holds]
    exact outcome_of_whole ends edge opens
  · cases htargets : targets root paths ((front ++ blanks).length, node) with
    | nil => exact .kept
    | cons target others =>
        rw [htargets] at single hsublist hfewer
        have hothers : others = [] := by
          rw [List.length_cons] at single
          exact List.length_eq_zero_iff.mp (by omega)
        subst hothers
        have hmember := hsublist.subset (List.mem_singleton_self target)
        simp only [List.map_cons, List.map_nil, List.any_cons, List.any_nil, List.all_cons,
          List.all_nil, isImport_of_mem_specNodes hmember, Bool.or_false, Bool.and_true]
        exact outcome_of_spec isDeclaration holds hmember hfewer

end Declaration

/-! ## Ends of items -/

/-- A terminator at the end of a line is what stands on the line. -/
theorem Terminator.lineRest_append {semicolon : Bool} {ending rest : Text}
    (terminator : Terminator semicolon ending) (line : isLineEnd (ending ++ rest) = true) :
    lineRest (ending ++ rest) ++ '\n' :: rest = ending ++ rest := by
  conv => rhs; rw [(terminator.isLineEnd_append line).2]
  simp

/-- The rest of a line behind a declaration is its terminator; one more line
break may go with it. -/
theorem Terminator.lineCut {semicolon : Bool} {ending rest taken remaining : Text}
    (terminator : Terminator semicolon ending) (line : isLineEnd (ending ++ rest) = true)
    (cut : LineCut (ending ++ rest) taken remaining) :
    ∃ skipped, taken = ending ++ skipped ∧ rest = skipped ++ remaining ∧
      (skipped = [] ∨ skipped = ['\n']) := by
  obtain ⟨-, hending⟩ := terminator.isLineEnd_append line
  have hline := terminator.lineRest_append line
  cases cut with
  | final whole =>
      refine absurd ?_ (Extent.newline_not_mem_lineRest (ending ++ rest))
      rw [whole, ← hline]
      simp
  | line split =>
      refine ⟨[], ?_, ?_, .inl rfl⟩
      · rw [List.append_nil]
        exact hending.symm
      · exact List.tail_eq_of_cons_eq (List.append_cancel_left (hline.trans split))
  | blank split =>
      refine ⟨['\n'], ?_, ?_, .inr rfl⟩
      · conv => rhs; rw [hending]
        simp
      · exact List.tail_eq_of_cons_eq (List.append_cancel_left (hline.trans split))

/-- The ends of items, with what stands behind them. The flag says whether the end is a
semicolon. -/
inductive Ending : Bool → Text → Text → Prop
  | terminator {semicolon : Bool} {ending : Text} (terminator : Terminator semicolon ending)
      (rest : Text) : Ending semicolon ending rest
  /-- The end of the source. -/
  | final {ending : Text} (ends : ending.drop (inlineLength ending) = []) : Ending false ending []

namespace Ending

variable {semicolon : Bool} {ending rest : Text}

/-- Behind an item, its end is passed over. -/
theorem readsBehind_iff (isEnding : Ending semicolon ending rest) :
    ReadsBehind (ending ++ rest) ↔ SourceReads rest := by
  cases isEnding with
  | terminator terminator rest => exact ReadsBehind.terminator_append_iff terminator rest
  | final ends =>
      rw [List.append_nil]
      exact iff_of_true (.of_final ends) (.of_blank rfl)

/-- Where the item in front of it has gone, a semicolon is an item of its own, and any
other end is blank. -/
theorem sourceReads_iff (isEnding : Ending semicolon ending rest) :
    SourceReads (ending ++ rest) ↔ if semicolon then ReadsBehind rest else SourceReads rest := by
  cases isEnding with
  | terminator terminator rest =>
      cases terminator with
      | semicolon inline => exact sourceReads_semicolon_iff inline rest
      | newline inline =>
          exact SourceReads.blanks_append_iff (Terminator.newline inline).blanks rest
      | comment inline words short =>
          exact SourceReads.blanks_append_iff (Terminator.comment inline words short).blanks rest
  | final ends =>
      rw [List.append_nil]
      exact iff_of_true (.of_blank (afterBlanks_of_final ends)) (SourceReads.of_blank rfl)

theorem strays_append (isEnding : Ending semicolon ending rest) :
    strays (ending ++ rest) = (semicolon && goesOn rest) := by
  have hplain {text : Text} (ends : goesOn text = false) : strays text = false := by
    rw [strays, isSemicolonNext_of_goesOn ends, Bool.false_and]
  cases isEnding with
  | terminator terminator rest =>
      cases terminator with
      | semicolon inline => exact strays_semicolon inline rest
      | newline inline => exact hplain (goesOn_terminator (.newline inline) rest)
      | comment inline words short =>
          exact hplain (goesOn_terminator (.comment inline words short) rest)
  | final ends =>
      rw [List.append_nil]
      exact hplain (goesOn_of_final ends)

/-- An end of an item that ends a line goes with the line; one more line break
may go with it. -/
theorem lineCut (isEnding : Ending semicolon ending rest)
    (line : isLineEnd (ending ++ rest) = true) {taken remaining : Text}
    (cut : LineCut (ending ++ rest) taken remaining) :
    semicolon = false ∧ ∃ skipped, taken = ending ++ skipped ∧ rest = skipped ++ remaining ∧
      (skipped = [] ∨ skipped = ['\n']) := by
  cases isEnding with
  | terminator terminator rest =>
      exact ⟨(terminator.isLineEnd_append line).1, terminator.lineCut line cut⟩
  | final ends =>
      rw [List.append_nil] at line cut
      have hwhole := lineRest_of_final ends line
      refine ⟨rfl, ?_⟩
      cases cut with
      | final whole => exact ⟨[], (List.append_nil _).symm, rfl, .inl rfl⟩
      | line split =>
          rw [hwhole] at split
          simp at split
      | blank split =>
          rw [hwhole] at split
          simp at split

/-- No parenthesis closes on the line below. -/
theorem not_closes (isEnding : Ending semicolon ending rest) (reads : SourceReads rest)
    (line : isLineEnd (ending ++ rest) = true) {later : Text}
    (split : ending ++ rest = lineRest (ending ++ rest) ++ '\n' :: later) :
    Text.startsWith (Text.trimStart later) [')'] = false := by
  obtain ⟨-, skipped, -, rfl, hskipped⟩ := isEnding.lineCut line (.line split)
  exact (reads.skip hskipped).not_closes

end Ending

/-! ## The text that is left -/

/-- What is left of a declaration with blanks in front and an end behind, and how it can be
read: the flags say whether the end is a semicolon, whether the declaration goes as a whole,
and whether its group can be read. -/
inductive Left (last : Char) (blanks ending : Text) : Bool → Bool → Bool → Text → Prop
  | declaration {semicolon : Bool} {node : Node} (isDeclaration : IsDeclaration node) :
      Left last blanks ending semicolon false true (blanks ++ node.text ++ ending)
  | stray {semicolon : Bool} {text words : Text} (starts : text = 'i' :: words)
      (unread : ∀ more, after .file itemForm (text ++ more) = none) :
      Left last blanks ending semicolon false false (blanks ++ text ++ ending)
  | ending {semicolon : Bool} : Left last blanks ending semicolon true true (blanks ++ ending)
  /-- The declaration has gone with its lines. -/
  | lines {kept dropped : Text} (split : blanks = kept ++ dropped)
      (blank : ∀ character ∈ dropped, Text.isBlank character = true)
      (ends : kept.getLast? = some '\n' ∨ kept = [] ∧ last = '\n') :
      Left last blanks ending false true true kept

theorem IsDeclaration.exists_cons {node : Node} (isDeclaration : IsDeclaration node) :
    ∃ words, node.text = 'i' :: words := by
  cases isDeclaration <;> exact ⟨_, rfl⟩

theorem after_itemForm_of_topLevel {text rest : Text}
    (success : after .file topLevel text = some rest) : after .file itemForm text = some rest := by
  have htop : after .file (.phrase .topLevel) text = some rest := by
    rw [after_phrase]
    exact success
  rw [itemForm, after_alt rfl, htop, Option.some_or]

namespace Left

variable {last : Char} {blanks ending left other : Text} {semicolon goes sound : Bool}

/-- Blanks that end a line or none are left in front of lines that go. -/
theorem blanks_of_lines {kept dropped : Text} (passed : Blanks true (kept ++ dropped))
    (blank : ∀ character ∈ dropped, Text.isBlank character = true)
    (ends : kept.getLast? = some '\n' ∨ kept = [] ∧ last = '\n') : Blanks true kept :=
  passed.trim blank (ends.elim .inr fun nothing => .inl nothing.1)

/-- There is nothing to read in a group that has gone. -/
theorem sound_of_goes (isLeft : Left last blanks ending semicolon goes sound left)
    (whole : goes = true) : sound = true := by
  cases isLeft <;> first | rfl | cases whole

theorem sourceReads_iff (isLeft : Left last blanks ending semicolon goes sound left)
    (passed : Blanks true blanks) (isEnding : Ending semicolon ending other) :
    SourceReads (left ++ other) ↔
      sound = true ∧ if goes && semicolon then ReadsBehind other else SourceReads other := by
  cases isLeft with
  | declaration isDeclaration =>
      rw [List.append_assoc, sourceReads_item_iff
        (after_itemForm_of_topLevel (isDeclaration.after_append passed _)), isEnding.readsBehind_iff]
      simp
  | stray starts unread =>
      refine iff_of_false (fun reads => ?_) fun sound => nomatch sound.1
      rw [List.append_assoc, List.append_assoc, SourceReads.blanks_append_iff passed] at reads
      rcases reads.exists_item with ⟨rest, hrest⟩ | hblank
      · rw [unread] at hrest
        cases hrest
      · rw [starts, List.cons_append, afterBlanks_mark (by decide)] at hblank
        cases hblank
  | ending =>
      rw [List.append_assoc, SourceReads.blanks_append_iff passed, isEnding.sourceReads_iff]
      simp
  | lines split blank ends =>
      subst split
      rw [SourceReads.blanks_append_iff (blanks_of_lines passed blank ends)]
      simp

/-- Behind an empty statement on the same line there must be an end. -/
theorem readsBehind_inline_iff (isLeft : Left last blanks ending semicolon goes sound left)
    (inline : Blanks false blanks) (isEnding : Ending semicolon ending other)
    (edge : last ≠ '\n') :
    ReadsBehind (left ++ other) ↔ goes = true ∧ SourceReads other := by
  have hword {text words : Text} (starts : text = 'i' :: words) :
      ¬ ReadsBehind (blanks ++ text ++ ending ++ other) := by
    rw [List.append_assoc, List.append_assoc, ReadsBehind.inline_append_iff inline, starts]
    exact ReadsBehind.not_mark (by decide) (by decide) _
  cases isLeft with
  | declaration isDeclaration =>
      obtain ⟨words, starts⟩ := isDeclaration.exists_cons
      exact iff_of_false (hword starts) fun goes => nomatch goes.1
  | stray starts unread => exact iff_of_false (hword starts) fun goes => nomatch goes.1
  | ending =>
      rw [List.append_assoc, ReadsBehind.inline_append_iff inline, isEnding.readsBehind_iff]
      simp
  | lines split blank ends =>
      subst split
      rcases ends with hends | ⟨-, hedge⟩
      · exact absurd hends (inline.trim blank (.inr hends)).getLast?_ne
      · exact absurd hedge edge

/-- Behind a line break, nothing is behind an empty statement any more. -/
theorem readsBehind_break_iff (isLeft : Left last blanks ending semicolon goes sound left)
    {front behind : Text} (split : blanks = front ++ behind) (terminator : Terminator false front)
    (passed : Blanks true blanks) (edge : last ≠ '\n') :
    ReadsBehind (left ++ other) ↔ SourceReads (left ++ other) := by
  have hbreak (text : Text) : ReadsBehind (blanks ++ text) ↔ SourceReads (blanks ++ text) := by
    rw [split, List.append_assoc]
    exact ReadsBehind.break_append_iff terminator _
  cases isLeft with
  | declaration isDeclaration =>
      rw [List.append_assoc, List.append_assoc]
      exact hbreak _
  | stray starts unread =>
      rw [List.append_assoc, List.append_assoc]
      exact hbreak _
  | ending =>
      rw [List.append_assoc]
      exact hbreak _
  | @lines kept dropped divided blank ends =>
      subst divided
      have hkept := blanks_of_lines passed blank ends
      rcases ends with hends | ⟨-, hedge⟩
      · rcases hkept.inline_or_break with hinline | ⟨first, rest, rfl, hfirst, -⟩
        · exact absurd hends hinline.getLast?_ne
        · rw [List.append_assoc]
          exact ReadsBehind.break_append_iff hfirst _
      · exact absurd hedge edge

end Left

/-- What is deleted with a declaration and behind it leaves what is left of the declaration
and its end, and what is left behind them. A line break of what follows may go with the
declaration. -/
theorem Outcome.leaves {last : Char} {position : Nat} {blanks ending rest : Text} {node : Node}
    {semicolon goes sound : Bool} {extents : List Extent}
    (outcome : Outcome last position blanks node (ending ++ rest) goes sound extents)
    (isDeclaration : IsDeclaration node) (isEnding : Ending semicolon ending rest) {limit : Nat}
    (inside : position + (blanks ++ node.text ++ ending ++ rest).length ≤ limit) :
    ∃ left skipped remaining, Left last blanks ending semicolon goes sound left ∧
      rest = skipped ++ remaining ∧
      (skipped = [] ∨ semicolon = false ∧ skipped = ['\n']) ∧
      ∀ property later, Leaves (fun other => property (left ++ other)) limit
          (position + (blanks ++ node.text ++ ending ++ skipped).length) remaining later →
        Leaves property limit position (blanks ++ node.text ++ ending ++ rest)
          (extents ++ later) := by
  simp only [List.length_append] at inside
  -- A piece of the declaration goes.
  have hpiece {kept taken behind : Text} (split : node.text = kept ++ taken ++ behind)
      (nonempty : taken ≠ []) (property : Text → Prop) (later : List Extent)
      (leaves : Leaves (fun other => property (blanks ++ (kept ++ behind) ++ ending ++ other)) limit
        (position + (blanks ++ node.text ++ ending ++ []).length) rest later) :
      Leaves property limit position (blanks ++ node.text ++ ending ++ rest)
        (⟨position + (blanks ++ kept).length, position + (blanks ++ kept).length + taken.length⟩ ::
          later) := by
    have htext : blanks ++ node.text ++ ending ++ rest =
        (blanks ++ kept) ++ (taken ++ ((behind ++ ending) ++ rest)) := by
      simp [split]
    rw [htext]
    refine .append (.delete nonempty ?_ (.append ?_))
    · simp only [split, List.length_append] at inside ⊢
      omega
    · have hposition : position + (blanks ++ kept).length + taken.length +
          (behind ++ ending).length = position + (blanks ++ node.text ++ ending ++ []).length := by
        simp only [split, List.length_append, List.length_nil]
        omega
      rw [hposition]
      refine leaves.imp fun other hother => ?_
      simpa using hother
  cases outcome with
  | kept =>
      refine ⟨_, [], rest, .declaration isDeclaration, rfl, .inl rfl, fun property later leaves => ?_⟩
      rw [List.append_nil] at leaves
      exact Leaves.append leaves
  | @thinned kept taken behind pruned split nonempty hpruned isPruned =>
      refine ⟨_, [], rest, .declaration isPruned, rfl, .inl rfl, fun property later leaves => ?_⟩
      rw [hpruned] at leaves
      exact hpiece split nonempty property later leaves
  | @stray kept taken behind words split nonempty starts unread =>
      have hstarts : kept ++ behind = 'i' :: (words ++ behind) := by
        rw [starts, List.cons_append]
      exact ⟨_, [], rest, .stray hstarts unread, rfl, .inl rfl, hpiece split nonempty⟩
  | gone =>
      refine ⟨_, [], rest, .ending, rfl, .inl rfl, fun property later leaves => ?_⟩
      obtain ⟨words, hword⟩ := isDeclaration.exists_cons
      have hne : node.text ≠ [] := by simp [hword]
      have htext : blanks ++ node.text ++ ending ++ rest =
          blanks ++ (node.text ++ (ending ++ rest)) := by
        simp
      rw [htext]
      refine .append (.delete hne ?_ (.append ?_))
      · omega
      · have hposition : position + blanks.length + node.text.length + ending.length =
            position + (blanks ++ node.text ++ ending ++ []).length := by
          simp only [List.length_append, List.length_nil]
          omega
        rw [hposition]
        refine leaves.imp fun other hother => ?_
        rwa [List.append_assoc] at hother
  | @lines kept dropped taken remaining split blank ends line cut =>
      obtain ⟨rfl, skipped, rfl, rfl, hskipped⟩ := isEnding.lineCut line cut
      refine ⟨kept, skipped, remaining, .lines split blank ends, rfl,
        hskipped.imp_right fun hbreak => ⟨rfl, hbreak⟩, fun property later leaves => ?_⟩
      obtain ⟨words, hword⟩ := isDeclaration.exists_cons
      have htext : blanks ++ node.text ++ ending ++ (skipped ++ remaining) =
          kept ++ ((dropped ++ node.text ++ (ending ++ skipped)) ++ remaining) := by
        simp [split]
      rw [htext]
      refine .append (.delete ?_ ?_ ?_)
      · simp [hword]
      · simp only [split, List.length_append] at inside ⊢
        omega
      · have hposition : position + kept.length +
            (dropped ++ node.text ++ (ending ++ skipped)).length =
            position + (blanks ++ node.text ++ ending ++ skipped).length := by
          simp only [split, List.length_append]
          omega
        rw [hposition]
        exact leaves

end Deinstrument.Go
