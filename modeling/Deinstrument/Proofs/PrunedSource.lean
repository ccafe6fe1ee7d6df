import Deinstrument.Proofs.DeclarationRemains

/-!
# Sources without unused imports

A source that starts with its package clause and its import declarations, as Go
demands, loses unused imports, at most one from each declaration. What is left can
be read unless a semicolon stays where there is no place for it: behind a
specification that goes from a group, or as an empty statement without an end.
-/

namespace Deinstrument.Go

open Form
open Extent (Leaves wholeLines)
open Import (extentOf targets targetsOf)

/-! ## Item by item -/

theorem afterBlanks_newline (text : Text) : afterBlanks ('\n' :: text) = afterBlanks text :=
  Blanks.afterBlanks_append (.space '\n' rfl (.inl rfl) .nil) text

/-- No item starts with a line break. -/
theorem ne_newline_of_solid {text rest : Text} (solid : afterBlanks text = text) :
    text ≠ '\n' :: rest := by
  rintro rfl
  rw [afterBlanks_newline] at solid
  have hlength := congrArg List.length solid
  rw [afterBlanks, List.length_drop, List.length_cons] at hlength
  omega

/-- The items of a source without a line break in front of them. -/
theorem SourceItems.tail {position : Nat} {nodes : List (Nat × Node)} {text : Text}
    (items : SourceItems position nodes ('\n' :: text)) :
    SourceItems (position + 1) nodes text := by
  generalize hwhole : '\n' :: text = whole at items
  have hposition (blanks : Text) :
      position + ('\n' :: blanks).length = position + 1 + blanks.length := by
    rw [List.length_cons]
    omega
  cases items with
  | stop position ends =>
      subst hwhole
      rw [afterBlanks_newline] at ends
      exact .stop _ ends
  | @last position blanks rest node passed solid isTop read ends =>
      cases blanks with
      | nil => exact absurd hwhole.symm (ne_newline_of_solid solid)
      | cons first blanks =>
          cases hwhole
          rw [hposition blanks]
          exact .last _ passed.tail solid isTop read ends
  | @item position blanks ending rest node nodes semicolon passed solid isTop read terminator reads
      later =>
      cases blanks with
      | nil => exact absurd (hwhole.trans (by simp)).symm (ne_newline_of_solid solid)
      | cons first blanks =>
          cases hwhole
          rw [hposition blanks] at later ⊢
          exact .item _ passed.tail solid isTop read terminator reads later

theorem SourceItems.skip {position : Nat} {nodes : List (Nat × Node)} {skipped text : Text}
    (items : SourceItems position nodes (skipped ++ text))
    (short : skipped = [] ∨ skipped = ['\n']) :
    SourceItems (position + skipped.length) nodes text := by
  rcases short with rfl | rfl
  · exact items
  · exact items.tail

/-- The last character of a terminator. -/
theorem Terminator.getLast? {semicolon : Bool} {text : Text}
    (terminator : Terminator semicolon text) :
    text.getLast? = some (if semicolon then ';' else '\n') := by
  cases terminator with
  | semicolon inline => exact List.getLast?_concat
  | newline inline => exact List.getLast?_concat
  | comment inline words short => exact List.getLast?_concat

/-- No word goes on with a terminator. -/
theorem Terminator.endsWord {semicolon : Bool} {text : Text}
    (terminator : Terminator semicolon text) (more : Text) : EndsWord (text ++ more) := by
  have hmark {first : Char} {rest : Text} (part : Text.isIdentifierPart first = false) :
      EndsWord (first :: rest) := by
    rintro character ⟨⟩
    exact part
  cases terminator with
  | semicolon inline =>
      rw [List.append_assoc]
      exact inline.of_inline.endsWord (hmark (by decide))
  | newline inline =>
      rw [List.append_assoc]
      exact inline.of_inline.endsWord (hmark (by decide))
  | comment inline words short =>
      rw [List.append_assoc, List.append_assoc]
      exact inline.of_inline.endsWord (hmark (by decide))

theorem ClauseText.ne_nil {clause : Text} (isClause : ClauseText clause) : clause ≠ [] := by
  cases isClause with
  | mk passed isWord ends => simp

/-- Whether every empty statement that is left of a declaration that goes has an end. The
semicolon behind the declaration is one, unless it ends another one further up on its line, as
the flag says, or nothing follows it there. -/
def settled (source : Text) (goes : Nat × Node → Bool) : Bool → List (Nat × Node) → Bool
  | _, [] => true
  | waits, mark :: later =>
      let strays := strays (source.drop (extentOf mark).stop)
      match waits, goes mark with
      | false, false | true, true => settled source goes false later
      | false, true => settled source goes strays later
      | true, false => mark.2.text == [';'] && settled source goes strays later

section Settled

variable {source : Text} {goes : Nat × Node → Bool} {nodes : List (Nat × Node)}

/-- Without semicolons that something follows, nothing waits for an end. -/
theorem settled_of_plain (plain : ∀ mark ∈ nodes, goes mark = true →
    strays (source.drop (extentOf mark).stop) = false) :
    settled source goes false nodes = true := by
  induction nodes with
  | nil => rfl
  | cons mark nodes ih =>
      obtain ⟨hmark, hlater⟩ := List.forall_mem_cons.mp plain
      cases hgoes : goes mark with
      | false => simp [settled, hgoes, ih hlater]
      | true => simp [settled, hgoes, hmark hgoes, ih hlater]

/-- Behind an empty statement, an item that stays must be one as well. -/
theorem readsBehind_item_iff {front blanks ending rest : Text} {node : Node} {semicolon : Bool}
    (holds : source = front ++ (blanks ++ node.text ++ ending ++ rest))
    (passed : Blanks true blanks)
    (solid : afterBlanks (node.text ++ ending ++ rest) = node.text ++ ending ++ rest)
    (read : after .file itemForm (node.text ++ ending ++ rest) = some (ending ++ rest))
    (isEnding : Ending semicolon ending rest) (reads : SourceReads rest)
    (stays : ∀ mark ∈ (front.length + blanks.length, node) :: nodes, goes mark = false)
    (later : ReadsBehind rest ↔ settled source goes (goesOn rest) nodes = true) :
    ReadsBehind (blanks ++ node.text ++ ending ++ rest) ↔
      settled source goes (goesOn (blanks ++ node.text ++ ending ++ rest))
        ((front.length + blanks.length, node) :: nodes) = true := by
  have hplain {marks : List (Nat × Node)} (stays : ∀ mark ∈ marks, goes mark = false) :
      settled source goes false marks = true :=
    settled_of_plain fun mark member goes => absurd goes (by simp [stays mark member])
  have hall := hplain stays
  obtain ⟨hgoes, hstays⟩ := List.forall_mem_cons.mp stays
  have hdrop : source.drop (extentOf (front.length + blanks.length, node)).stop = ending ++ rest := by
    rw [← List.length_append]
    exact Import.drop_extentOf (holds.trans (by simp))
  have hassoc : blanks ++ node.text ++ ending ++ rest = blanks ++ (node.text ++ ending ++ rest) := by
    simp
  rw [hassoc]
  rcases passed.inline_or_break with inline | ⟨line, more, rfl, terminator, hmore⟩
  · obtain ⟨first, text, htext, hopener⟩ := opens_of_item read
    rw [solid] at htext
    have hmark : isMark first = true := (Bool.and_eq_true_iff.mp hopener).1
    rw [ReadsBehind.inline_append_iff inline, goesOn_inline inline, htext, goesOn_mark hmark]
    simp only [settled, hgoes, hdrop, isEnding.strays_append, Bool.and_eq_true, beq_iff_eq]
    by_cases hsemicolon : first = ';'
    · -- The item is an empty statement, and what is behind it is known.
      subst hsemicolon
      rw [htext, after_itemForm_semicolon, Option.some.injEq] at read
      have hnode : node.text = [';'] := by
        rw [read, List.append_assoc] at htext
        exact List.append_cancel_right (htext.trans (List.singleton_append).symm)
      have hended : ReadsBehind (';' :: text) ↔ SourceReads text :=
        ReadsBehind.terminator_append_iff (.semicolon .nil) text
      rw [hended, read, isEnding.sourceReads_iff]
      cases semicolon with
      | true => simp [hnode, later]
      | false => simp [hnode, hplain hstays, reads]
    · refine iff_of_false (ReadsBehind.not_mark hmark hsemicolon text) ?_
      rintro ⟨hnode, -⟩
      rw [hnode] at htext
      cases htext
      exact hsemicolon rfl
  · rw [List.append_assoc, goesOn_terminator terminator, ReadsBehind.terminator_append_iff terminator,
      SourceReads.blanks_append_iff hmore, sourceReads_item_iff read, isEnding.readsBehind_iff]
    exact iff_of_true reads hall

/-- Behind an empty statement, items that stay are read if empty statements among them have
their ends. -/
theorem readsBehind_iff_of_stays {position : Nat} {text front : Text}
    (items : SourceItems position nodes text) (holds : source = front ++ text)
    (start : front.length = position) (stays : ∀ mark ∈ nodes, goes mark = false) :
    ReadsBehind text ↔ settled source goes (goesOn text) nodes = true := by
  induction items generalizing front with
  | stop position ends => exact iff_of_true (.of_blank ends) rfl
  | @last position blanks rest node passed solid isTop read ends =>
      subst start
      have hempty : ReadsBehind [] ↔ settled source goes (goesOn []) [] = true :=
        iff_of_true (.of_blank rfl) rfl
      have hread : after .file itemForm (node.text ++ rest ++ []) = some (rest ++ []) := by
        simpa using read
      rw [← List.append_nil (node.text ++ rest)] at solid
      rw [← List.append_nil (blanks ++ node.text ++ rest)] at holds ⊢
      exact readsBehind_item_iff holds passed solid hread (.final ends) (.of_blank rfl) stays hempty
  | @item position blanks ending rest node nodes semicolon passed solid isTop read terminator reads
      later ih =>
      subst start
      have hlater := ih (holds.trans (List.append_assoc ..).symm)
        (by simp only [List.length_append]; omega) (List.forall_mem_cons.mp stays).2
      exact readsBehind_item_iff holds passed solid read (.terminator terminator rest) reads stays
        hlater

end Settled

section Items

variable {root : Node} {paths : List Text} {source : Text}

theorem targetsOf_eq_nil {nodes : List (Nat × Node)}
    (others : ∀ mark ∈ nodes, isImport mark = false) : targetsOf root paths nodes = [] := by
  rw [targetsOf, List.filter_eq_nil_iff.mpr, List.flatMap_nil]
  intro mark hmark
  simpa [isImport] using others mark hmark

/-- A declaration that goes is among what goes. -/
theorem mem_targetsOf_of_goes {mark : Nat × Node} {nodes : List (Nat × Node)}
    (member : mark ∈ nodes) (whole : goes root paths mark = true) :
    mark ∈ targetsOf root paths nodes := by
  obtain ⟨himport, hany⟩ := Bool.and_eq_true_iff.mp whole
  obtain ⟨target, htarget, hother⟩ := List.any_eq_true.mp hany
  refine List.mem_flatMap.mpr ⟨mark, List.mem_filter.mpr ⟨member, by simpa [isImport] using himport⟩, ?_⟩
  rcases Import.targets_cases root paths mark with hnone | hwhole | ⟨hsublist, -⟩
  · rw [hnone] at htarget
    cases htarget
  · rw [hwhole]
    exact List.mem_singleton_self mark
  · rw [isImport_of_mem_specNodes (hsublist.subset htarget)] at hother
    cases hother

theorem goes_eq_false {mark : Nat × Node} (other : isImport mark = false) :
    goes root paths mark = false := by
  rw [goes, other, Bool.false_and]

/-- Whether what is left of some items can be read, or what is left of them behind an empty
statement on the same line if the flag says so. -/
def Readable (source : Text) (root : Node) (paths : List Text) (waits : Bool)
    (nodes : List (Nat × Node)) : Prop :=
  (∀ target ∈ targetsOf root paths nodes, breaksGroup source target = false) ∧
    settled source (goes root paths) waits nodes = true

theorem readable_of_others {nodes : List (Nat × Node)}
    (others : ∀ mark ∈ nodes, isImport mark = false) {waits : Bool} :
    Readable source root paths waits nodes ↔ settled source (goes root paths) waits nodes = true := by
  rw [Readable, targetsOf_eq_nil others]
  simp

/-- One more declaration in front of some items. -/
theorem readable_cons_iff {mark : Nat × Node} (isDeclaration : IsDeclaration mark.2)
    {waits : Bool} {nodes : List (Nat × Node)} :
    Readable source root paths waits (mark :: nodes) ↔
      ((targets root paths mark).all fun target => !breaksGroup source target) = true ∧
      if goes root paths mark then
        Readable source root paths (!waits && strays (source.drop (extentOf mark).stop)) nodes
      else waits = false ∧ Readable source root paths false nodes := by
  obtain ⟨words, hwords⟩ := isDeclaration.exists_cons
  have hsound : ((targets root paths mark).all fun target => !breaksGroup source target) = true ↔
      ∀ target ∈ targets root paths mark, breaksGroup source target = false := by
    simp
  rw [Readable, Import.targetsOf_declaration (Import.kind_of_declaration isDeclaration),
    List.forall_mem_append, hsound, and_assoc]
  refine and_congr_right fun _ => ?_
  cases waits <;> cases hgoes : goes root paths mark <;> simp [Readable, settled, hgoes, hwords]

/-- What is left of a declaration and of the items behind it is read if what is left of all
these can be. -/
theorem Left.readable_iff {last : Char} {blanks ending left other rest more : Text}
    {mark : Nat × Node} {nodes : List (Nat × Node)} {semicolon : Bool}
    (isLeft : Left last blanks ending semicolon (goes root paths mark)
      ((targets root paths mark).all fun target => !breaksGroup source target) left)
    (isDeclaration : IsDeclaration mark.2) (passed : Blanks true blanks)
    (isEnding : Ending semicolon ending other)
    (straying : strays (source.drop (extentOf mark).stop) = (semicolon && goesOn rest))
    (reads : SourceReads other ↔ Readable source root paths false nodes)
    (behind : semicolon = true →
      (ReadsBehind other ↔ Readable source root paths (goesOn rest) nodes)) :
    (SourceReads (left ++ other) ↔ Readable source root paths false (mark :: nodes)) ∧
    (last ≠ '\n' → (ReadsBehind (left ++ other) ↔
      Readable source root paths (goesOn (blanks ++ (mark.2.text ++ more))) (mark :: nodes))) := by
  have hsource : SourceReads (left ++ other) ↔
      Readable source root paths false (mark :: nodes) := by
    rw [isLeft.sourceReads_iff passed isEnding, readable_cons_iff isDeclaration, straying]
    refine and_congr_right fun _ => ?_
    cases goes root paths mark with
    | false => simpa using reads
    | true =>
        cases semicolon with
        | false => simpa using reads
        | true => simpa using behind rfl
  refine ⟨hsource, fun edge => ?_⟩
  rcases passed.inline_or_break with inline | ⟨front, later, rfl, terminator, -⟩
  · obtain ⟨words, hwords⟩ := isDeclaration.exists_cons
    rw [isLeft.readsBehind_inline_iff inline isEnding edge, goesOn_inline inline, hwords,
      List.cons_append, goesOn_mark (by decide), readable_cons_iff isDeclaration]
    have hsound := isLeft.sound_of_goes
    cases hgoes : goes root paths mark with
    | false => simp
    | true => simpa [hsound hgoes] using reads
  · rw [isLeft.readsBehind_break_iff rfl terminator passed edge, List.append_assoc,
      goesOn_terminator terminator]
    exact hsource

/-- What is left of a declaration that stands in a source. -/
theorem exists_left {front blanks ending rest : Text} {node : Node} {semicolon : Bool}
    (isDeclaration : IsDeclaration node) (isEnding : Ending semicolon ending rest)
    (reads : SourceReads rest) {last : Char} (ends : front.getLast? = some last)
    (edge : last = '\n' ∨ Text.isBlank last = false)
    (holds : source = front ++ (blanks ++ node.text ++ ending ++ rest))
    (single : (targets root paths (front.length + blanks.length, node)).length ≤ 1) :
    ∃ left skipped remaining,
      Left last blanks ending semicolon (goes root paths (front.length + blanks.length, node))
        ((targets root paths (front.length + blanks.length, node)).all
          fun target => !breaksGroup source target) left ∧
      strays (source.drop (extentOf (front.length + blanks.length, node)).stop) =
        (semicolon && goesOn rest) ∧
      rest = skipped ++ remaining ∧
      (skipped = [] ∨ semicolon = false ∧ skipped = ['\n']) ∧
      ∀ property later, Leaves (fun other => property (left ++ other)) source.length
          (front.length + (blanks ++ node.text ++ ending ++ skipped).length) remaining later →
        Leaves property source.length front.length (blanks ++ node.text ++ ending ++ rest)
          ((targets root paths (front.length + blanks.length, node)).map
            (fun target => wholeLines source (extentOf target)) ++ later) := by
  have hholds : source = front ++ blanks ++ node.text ++ (ending ++ rest) := by
    rw [holds]
    simp
  have hinside : front.length + (blanks ++ node.text ++ ending ++ rest).length ≤
      source.length := by
    rw [holds]
    exact Nat.le_of_eq List.length_append.symm
  have houtcome := outcome_of_declaration root paths hholds isDeclaration ends edge
    (fun line later split => isEnding.not_closes reads line split) single
  obtain ⟨left, skipped, remaining, isLeft, hrest, hskipped, hleaves⟩ :=
    houtcome.leaves isDeclaration isEnding hinside
  have hdrop : source.drop (extentOf (front.length + blanks.length, node)).stop =
      ending ++ rest := by
    rw [← List.length_append]
    exact Import.drop_extentOf hholds
  exact ⟨left, skipped, remaining, isLeft, hdrop ▸ isEnding.strays_append, hrest, hskipped, hleaves⟩

/-- What is deleted from items in the order that Go demands leaves a source that is read if
what is left of them can be. -/
theorem leaves_of_items {position : Nat} {nodes : List (Nat × Node)} {text : Text}
    (items : SourceItems position nodes text) (reads : SourceReads text)
    {front : Text} {last : Char} (ends : front.getLast? = some last)
    (edge : last = '\n' ∨ Text.isBlank last = false) (holds : source = front ++ text)
    (start : front.length = position)
    (ordered : ∀ mark ∈ nodes.dropWhile isImport, isImport mark = false)
    (single : ∀ mark ∈ nodes, isImport mark = true → (targets root paths mark).length ≤ 1) :
    Leaves (fun other =>
        (SourceReads other ↔ Readable source root paths false nodes) ∧
        (last ≠ '\n' → (ReadsBehind other ↔ Readable source root paths (goesOn text) nodes)))
      source.length position text
      ((targetsOf root paths nodes).map fun target => wholeLines source (extentOf target)) := by
  -- Without import declarations, nothing goes.
  have hothers {position : Nat} {nodes : List (Nat × Node)} {text front : Text} {last : Char}
      (items : SourceItems position nodes text) (reads : SourceReads text)
      (holds : source = front ++ text) (start : front.length = position)
      (others : ∀ mark ∈ nodes, isImport mark = false) :
      Leaves (fun other =>
          (SourceReads other ↔ Readable source root paths false nodes) ∧
          (last ≠ '\n' → (ReadsBehind other ↔ Readable source root paths (goesOn text) nodes)))
        source.length position text
        ((targetsOf root paths nodes).map fun target => wholeLines source (extentOf target)) := by
    have hstays (mark) (member : mark ∈ nodes) : goes root paths mark = false :=
      goes_eq_false (others mark member)
    rw [targetsOf_eq_nil others]
    refine ⟨trivial, iff_of_true reads ((readable_of_others others).mpr ?_), fun _ => ?_⟩
    · exact settled_of_plain fun mark member goes => absurd goes (by simp [hstays mark member])
    · rw [readable_of_others others]
      exact readsBehind_iff_of_stays items holds start hstays
  induction nodes generalizing position text front last with
  | nil => exact hothers items reads holds start (List.forall_mem_nil _)
  | cons mark nodes ih =>
      cases himport : isImport mark with
      | false =>
          rw [List.dropWhile_cons_of_neg (by simp [himport])] at ordered
          exact hothers items reads holds start ordered
      | true =>
          rw [List.dropWhile_cons_of_pos himport] at ordered
          have hkind : mark.2.kind = .importDeclaration := beq_iff_eq.mp himport
          rw [Import.targetsOf_declaration hkind, List.map_append]
          have hsingle := single mark List.mem_cons_self himport
          have hlater : ∀ mark ∈ nodes, isImport mark = true →
              (targets root paths mark).length ≤ 1 :=
            fun mark hmark => single mark (List.mem_cons_of_mem _ hmark)
          subst start
          cases items with
          | @last position blanks rest node passed solid isTop read ending =>
              have isDeclaration : IsDeclaration node :=
                ((Import.declaration_or_other isTop).resolve_right (not_not_intro hkind)).1
              have isEnding : Ending false rest [] := .final ending
              have hempty : SourceReads [] := .of_blank rfl
              have hnone : Readable source root paths false [] :=
                ⟨List.forall_mem_nil _, rfl⟩
              rw [← List.append_nil (blanks ++ node.text ++ rest)] at holds ⊢
              obtain ⟨left, skipped, remaining, isLeft, straying, hnil, -, hleaves⟩ :=
                exists_left isDeclaration isEnding hempty ends edge holds hsingle
              obtain ⟨rfl, rfl⟩ := List.append_eq_nil_iff.mp hnil.symm
              refine hleaves _ [] ⟨trivial, ?_⟩
              rw [List.append_assoc, List.append_assoc]
              exact isLeft.readable_iff isDeclaration passed isEnding straying
                (iff_of_true hempty hnone) fun never => nomatch never
          | @item position blanks ending rest node nodes semicolon passed solid isTop read terminator
              readsRest later =>
              have isDeclaration : IsDeclaration node :=
                ((Import.declaration_or_other isTop).resolve_right (not_not_intro hkind)).1
              obtain ⟨left, skipped, remaining, isLeft, straying, rfl, hskipped, hleaves⟩ :=
                exists_left isDeclaration (.terminator terminator rest) readsRest ends edge holds
                  hsingle
              have hshort : skipped = [] ∨ skipped = ['\n'] := hskipped.imp_right And.right
              have hends : (front ++ (blanks ++ node.text ++ ending ++ skipped)).getLast? =
                  some (if semicolon then ';' else '\n') := by
                rcases hskipped with rfl | ⟨rfl, rfl⟩
                · rw [List.append_nil, ← List.append_assoc]
                  exact getLast?_append_of_some terminator.getLast?
                · rw [← List.append_assoc]
                  exact List.getLast?_concat
              have hedge : (if semicolon then ';' else '\n') = '\n' ∨
                  Text.isBlank (if semicolon then ';' else '\n') = false := by
                cases semicolon <;> decide
              have hposition : (front ++ (blanks ++ node.text ++ ending ++ skipped)).length =
                  front.length + blanks.length + node.text.length + ending.length +
                    skipped.length := by
                simp only [List.length_append]
                omega
              have hremaining := ih (later.skip hshort) (readsRest.skip hshort) hends hedge
                (by rw [holds]; simp) hposition ordered hlater
              rw [← hposition, List.length_append] at hremaining
              refine hleaves _ _ (hremaining.imp fun other ⟨hreads, hbehind⟩ => ?_)
              rw [List.append_assoc, List.append_assoc]
              refine isLeft.readable_iff isDeclaration passed (.terminator terminator other) straying
                hreads fun hsemicolon => ?_
              rcases hskipped with rfl | ⟨hother, -⟩
              · exact hbehind (by rw [hsemicolon]; decide)
              · rw [hsemicolon] at hother
                cases hother

/-- What is deleted behind a package clause leaves a source that is read if what is left of
the items behind it can be. -/
theorem leaves_of_clause {clause : Nat × Node} {nodes : List (Nat × Node)} {mark text : Text}
    (items : SourceItems mark.length (clause :: nodes) text) (reads : SourceReads text)
    (kind : clause.2.kind = .packageClause) (holds : source = mark ++ text)
    (ordered : ∀ mark ∈ nodes.dropWhile isImport, isImport mark = false)
    (single : ∀ mark ∈ nodes, isImport mark = true → (targets root paths mark).length ≤ 1) :
    ∃ head rest, text = head ++ rest ∧ head ≠ [] ∧
      Leaves (fun rest => SourceReads (head ++ rest) ↔ Readable source root paths false nodes)
        source.length (mark ++ head).length rest
        ((targetsOf root paths nodes).map fun target => wholeLines source (extentOf target)) := by
  have hclause {node : Node} (isTop : IsTop node) (kind : node.kind = .packageClause) :
      ClauseText node.text := by
    cases isTop with
    | clause kind isClause => exact isClause
    | declaration isDeclaration =>
        rw [Import.kind_of_declaration isDeclaration] at kind
        cases kind
    | body other =>
        rw [kind] at other
        cases other
  cases items with
  | @last position blanks rest node passed solid isTop read ends =>
      refine ⟨blanks ++ node.text ++ rest, [], (List.append_nil _).symm, ?_, trivial, ?_⟩
      · have hnonempty := (hclause isTop kind).ne_nil
        simp [hnonempty]
      · refine iff_of_true ?_ ⟨List.forall_mem_nil _, rfl⟩
        simpa [targetsOf, Extent.carve] using reads
  | @item position blanks ending rest node nodes semicolon passed solid isTop read terminator
      readsRest later =>
      have isClause := hclause isTop kind
      refine ⟨blanks ++ node.text ++ ending, rest, rfl, ?_, ?_⟩
      · simp [isClause.ne_nil]
      · have hends : (mark ++ (blanks ++ node.text ++ ending)).getLast? =
            some (if semicolon then ';' else '\n') := by
          rw [← List.append_assoc]
          exact getLast?_append_of_some terminator.getLast?
        have hedge : (if semicolon then ';' else '\n') = '\n' ∨
            Text.isBlank (if semicolon then ';' else '\n') = false := by
          cases semicolon <;> decide
        have hposition : mark.length + blanks.length + node.text.length + ending.length =
            (mark ++ (blanks ++ node.text ++ ending)).length := by
          simp only [List.length_append]
          omega
        rw [hposition] at later
        have hleaves := leaves_of_items later readsRest hends hedge (holds.trans (by simp)) rfl
          ordered single
        refine hleaves.imp fun text left => ?_
        obtain ⟨hreads, -⟩ := left
        have hitem := isClause.after_append passed (terminator.endsWord text)
        rw [List.append_assoc, sourceReads_item_iff (after_itemForm_of_topLevel hitem),
          ReadsBehind.terminator_append_iff terminator, hreads]

end Items

/-! ## Whole sources -/

/-- A byte order mark is found again in front of a text that starts as before. -/
theorem unmarked_append {mark head rest : Text}
    (bare : head ++ rest = unmarked (mark ++ (head ++ rest))) (goes : head ≠ []) (other : Text) :
    unmarked (mark ++ (head ++ other)) = head ++ other := by
  cases head with
  | nil => exact absurd rfl goes
  | cons first head =>
      simp only [unmarked] at bare ⊢
      cases mark with
      | nil =>
          split at bare
          · have hlength := congrArg List.length bare
            simp at hlength
          · rename_i hother
            exact if_neg hother
      | cons sign signs =>
          split at bare
          · rename_i hsign
            have hsigns : signs = [] := List.append_left_eq_self.mp bare.symm
            subst hsigns
            exact if_pos hsign
          · cases List.append_left_eq_self.mp bare.symm

/-- Whether a source file has its package clause first and its import
declarations next, as Go demands. -/
def inOrder (root : Node) : Bool :=
  match root.childPositions 0 with
  | [] => false
  | clause :: others =>
      clause.2.kind == .packageClause && (others.dropWhile isImport).all fun mark => !isImport mark

/-- A source in order, from each of whose declarations at most one import goes, can still be
read without its unused imports exactly if no semicolon stays behind in a group and every
empty statement that is left has an end. So it can be read if nothing that goes is ended by a
semicolon, but for declarations with nothing behind the semicolon on its line. -/
theorem isSome_parse?_prune_iff {source : Text} {root : Node} (parsed : parse? source = some root)
    (ordered : inOrder root = true) {paths : List Text}
    (single : ∀ declaration ∈ Import.declarations root,
      (Import.planDeclaration root source paths declaration).removed.length ≤ 1)
    (recover : Text → Node) :
    ((parse? (Import.prune source paths recover).2).isSome ↔
      (∀ target ∈ Import.allTargets root paths, breaksGroup source target = false) ∧
      settled source (goes root paths) false (root.childPositions 0) = true) ∧
    ((∀ target ∈ Import.allTargets root paths, breaksGroup source target = false ∧
        strays (source.drop (extentOf target).stop) = false) →
      (parse? (Import.prune source paths recover).2).isSome) := by
  obtain ⟨mark, text, hsource, hbare, hitems⟩ := sourceItems_of_parse? parsed
  have hreads : SourceReads text := by
    rw [hbare, ← parse?_isSome_iff, parsed]
    rfl
  have hsingle : ∀ mark ∈ root.childPositions 0, isImport mark = true →
      (targets root paths mark).length ≤ 1 := by
    intro mark hmark himport
    refine Nat.le_trans (Import.length_targets_le root source paths mark) (single mark ?_)
    exact List.mem_filter.mpr ⟨hmark, by simpa [isImport] using himport⟩
  have hiff : (parse? (Import.prune source paths recover).2).isSome ↔
      Readable source root paths false (root.childPositions 0) := by
    rw [parse?_isSome_iff, Import.prune_of_parse? parsed, Import.plan_deletions]
    change SourceReads (unmarked (Extent.deleteAll source ((targetsOf root paths
      (root.childPositions 0)).map fun target => wholeLines source (extentOf target)))) ↔ _
    rw [inOrder] at ordered
    generalize root.childPositions 0 = nodes at hitems ordered hsingle ⊢
    cases nodes with
    | nil => cases ordered
    | cons clause nodes =>
        obtain ⟨hkind, hothers⟩ := Bool.and_eq_true_iff.mp ordered
        have hkind : clause.2.kind = .packageClause := beq_iff_eq.mp hkind
        have hnot : clause.2.kind ≠ .importDeclaration := by
          rw [hkind]
          decide
        have hclause : goes root paths clause = false :=
          goes_eq_false (beq_eq_false_iff_ne.mpr hnot)
        have hrest : Readable source root paths false (clause :: nodes) ↔
            Readable source root paths false nodes := by
          simp [Readable, Import.targetsOf_other hnot, settled, hclause]
        rw [hrest, Import.targetsOf_other hnot]
        obtain ⟨head, rest, rfl, hgoes, hleaves⟩ := leaves_of_clause hitems hreads hkind hsource
          (by simpa using hothers) (fun mark hmark => hsingle mark (List.mem_cons_of_mem _ hmark))
        rw [← List.append_assoc] at hsource
        have hcarved := Extent.deleteAll_eq_carve (hsource ▸ hleaves.ascending)
        rw [← hsource] at hcarved
        rw [hsource, List.append_assoc] at hbare
        rw [hcarved, List.append_assoc, unmarked_append hbare hgoes]
        exact hleaves.holds
  refine ⟨hiff, fun plain => hiff.mpr ⟨fun target member => (plain target member).1, ?_⟩⟩
  refine settled_of_plain fun mark member whole => ?_
  exact (plain mark (mem_targetsOf_of_goes member whole)).2

/-- A group that starts on the line of the package clause and loses one of its
specifications, declarations that go as a whole, each with a comment behind it, and
three that end with a semicolon: one alone on its line, and two on one line. -/
def crowdedSource : Text :=
  "// p\npackage p; import (\n\t\"x\" // x\n\n\t// a\n\t\"a\" // b\n".toList ++
    "\n\t/* y */ \"y\"; \"z\"\n)\nimport b \"b\" // c\n\nimport /* */ (\"c\") /* d */\n".toList ++
    "import \"d\"; // d\nimport \"e\"; import \"f\";\n\nvar v = x.V\n".toList

theorem isSome_parse?_prune_crowdedSource :
    ∃ root, parse? crowdedSource = some root ∧ inOrder root = true ∧
      (Import.allTargets root (["a", "b", "c", "d", "e", "f"].map String.toList)).length = 6 ∧
      (parse? (Import.prune crowdedSource
        (["a", "b", "c", "d", "e", "f"].map String.toList)).2).isSome := by
  have hshown : ((parse? crowdedSource).map fun root =>
      let targets := Import.allTargets root (["a", "b", "c", "d", "e", "f"].map String.toList)
      (inOrder root, targets.length,
        decide (∀ declaration ∈ Import.declarations root,
          (Import.planDeclaration root crowdedSource
            (["a", "b", "c", "d", "e", "f"].map String.toList) declaration).removed.length ≤ 1),
        decide (∀ target ∈ targets, breaksGroup crowdedSource target = false),
        settled crowdedSource (goes root (["a", "b", "c", "d", "e", "f"].map String.toList)) false
          (root.childPositions 0))) =
      some (true, 6, true, true, true) := by decide +kernel
  obtain ⟨root, parsed, hroot⟩ := Option.map_eq_some_iff.mp hshown
  simp only [Prod.mk.injEq, decide_eq_true_eq] at hroot
  obtain ⟨hordered, hlength, hsingle, hgroups, hsettled⟩ := hroot
  exact ⟨root, parsed, hordered, hlength,
    (isSome_parse?_prune_iff parsed hordered hsingle _).1.mpr ⟨hgroups, hsettled⟩⟩

/-- A group on one line. -/
def inlineSource : Text :=
  "package p\n\nimport (\"a\"; \"b\")\n".toList

/-- The semicolon behind the only specification that goes stays, and the result
does not parse. -/
theorem parse?_prune_inlineSource :
    ∃ root, parse? inlineSource = some root ∧ inOrder root = true ∧
      (∀ declaration ∈ Import.declarations root,
        (Import.planDeclaration root inlineSource ["a".toList] declaration).removed.length ≤ 1) ∧
      Import.prune inlineSource ["a".toList] =
        (["a".toList], "package p\n\nimport (; \"b\")\n".toList) ∧
      parse? (Import.prune inlineSource ["a".toList]).2 = none := by
  have hshown : ((parse? inlineSource).map fun root =>
      (inOrder root, decide (∀ declaration ∈ Import.declarations root,
        (Import.planDeclaration root inlineSource ["a".toList] declaration).removed.length ≤ 1))) =
      some (true, true) := by decide +kernel
  obtain ⟨root, parsed, hroot⟩ := Option.map_eq_some_iff.mp hshown
  simp only [Prod.mk.injEq, decide_eq_true_eq] at hroot
  obtain ⟨hordered, hsingle⟩ := hroot
  exact ⟨root, parsed, hordered, hsingle, by decide +kernel, by decide +kernel⟩

end Deinstrument.Go
