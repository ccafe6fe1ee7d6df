import Deinstrument.Proofs.TopLevel
import Deinstrument.Proofs.WholeLines

/-!
# The extents of unused imports

The nodes that removing unused imports takes out are import specifications and
whole declarations. They stand behind each other in the source with line breaks
or semicolons between them, so the extents that are deleted with them lie in the
text and are disjoint, unless two specifications contend for the blank line
between them.
-/

namespace Deinstrument.Import

open Go

/-! ## The nodes that go -/

/-- The specifications that go, out of those of one declaration. -/
def doomed (root : Node) (paths : List Text) (specs : List (Nat × Node)) : List (Nat × Node) :=
  specs.filter fun spec => (ofNode? spec.2).any (isUnused root paths)

/-- The nodes that are deleted from one declaration: specifications of it or the
declaration as a whole. -/
def targets (root : Node) (paths : List Text) (declaration : Nat × Node) : List (Nat × Node) :=
  let specs := specNodes declaration.1 declaration.2
  let doomed := doomed root paths specs
  if doomed.isEmpty then []
  else if doomed.length = specs.length then [declaration]
  else doomed

/-- All nodes that are deleted from a source. -/
def allTargets (root : Node) (paths : List Text) : List (Nat × Node) :=
  (declarations root).flatMap (targets root paths)

section Targets

variable {root : Node} {paths : List Text}

theorem map_filterMap_doomed (root : Node) (paths : List Text) (specs : List (Nat × Node)) :
    (specs.filterMap fun spec => (ofNode? spec.2).bind fun imported =>
      if isUnused root paths imported then some (imported.path, spec) else none).map (·.2) =
      doomed root paths specs := by
  induction specs with
  | nil => rfl
  | cons spec specs ih =>
      simp only [doomed, List.filterMap_cons, List.filter_cons] at ih ⊢
      cases ofNode? spec.2 with
      | none => exact ih
      | some imported =>
          cases hunused : isUnused root paths imported with
          | false => simpa [hunused] using ih
          | true => simpa [hunused] using ih

theorem planDeclaration_deletions (root : Node) (text : Text) (paths : List Text)
    (declaration : Nat × Node) :
    (planDeclaration root text paths declaration).deletions =
      (targets root paths declaration).map fun target => (extentOf target).wholeLines text := by
  have hdoomed := map_filterMap_doomed root paths (specNodes declaration.1 declaration.2)
  simp only [planDeclaration, targets]
  generalize List.filterMap _ (specNodes declaration.1 declaration.2) = found at hdoomed ⊢
  rw [← hdoomed, List.isEmpty_map, List.length_map]
  split
  · rfl
  · split
    · rfl
    · simp [List.map_map]

theorem plan_deletions (root : Node) (text : Text) (paths : List Text) :
    (plan root text paths).deletions =
      (allTargets root paths).map fun target => (extentOf target).wholeLines text := by
  simp only [plan, allTargets, List.flatMap_map, List.map_flatMap, planDeclaration_deletions]

/-- A source that parses loses what its plan deletes. -/
theorem prune_of_parse? {source : Text} (parsed : parse? source = some root)
    (recover : Text → Node) :
    prune source paths recover = ((plan root source paths).removed,
      Extent.deleteAll source (plan root source paths).deletions) := by
  unfold prune
  rw [parsed]
  rfl

/-- The declaration goes, or specifications of it go and others stay. -/
theorem targets_cases (root : Node) (paths : List Text) (declaration : Nat × Node) :
    targets root paths declaration = [] ∨ targets root paths declaration = [declaration] ∨
      (targets root paths declaration).Sublist (specNodes declaration.1 declaration.2) ∧
        (targets root paths declaration).length <
          (specNodes declaration.1 declaration.2).length := by
  simp only [targets]
  split
  · exact .inl rfl
  · split
    · exact .inr (.inl rfl)
    · rename_i hlength
      have hsublist : (doomed root paths (specNodes declaration.1 declaration.2)).Sublist
          (specNodes declaration.1 declaration.2) :=
        List.filter_sublist
      exact .inr (.inr ⟨hsublist, Nat.lt_of_le_of_ne hsublist.length_le hlength⟩)

/-- No more nodes are deleted than paths go. -/
theorem length_targets_le (root : Node) (text : Text) (paths : List Text)
    (declaration : Nat × Node) :
    (targets root paths declaration).length ≤
      (planDeclaration root text paths declaration).removed.length := by
  have hdoomed := map_filterMap_doomed root paths (specNodes declaration.1 declaration.2)
  simp only [planDeclaration, targets, List.length_map]
  generalize List.filterMap _ (specNodes declaration.1 declaration.2) = found at hdoomed ⊢
  rw [← hdoomed, List.isEmpty_map, List.length_map]
  split
  · exact Nat.zero_le _
  · rename_i hfound
    split
    · exact List.length_pos_iff.mpr fun hnil => hfound (List.isEmpty_iff.mpr hnil)
    · exact Nat.le_of_eq (List.length_map _)

end Targets

/-! ## Nodes in a source -/

/-- A source has the text of a node at its position. -/
def Holds (source : Text) (mark : Nat × Node) : Prop :=
  ∃ front back, source = front ++ mark.2.text ++ back ∧ front.length = mark.1

section Holds

variable {source : Text}

theorem Holds.stands {mark : Nat × Node} (holds : Holds source mark)
    {first last : Char} {rest : Text} (opens : mark.2.text = first :: rest)
    (closes : mark.2.text.getLast? = some last) (blank : Text.isBlank first = false)
    (solid : Text.isBlank last = false) : (extentOf mark).Stands source := by
  obtain ⟨position, node⟩ := mark
  obtain ⟨front, back, rfl, rfl⟩ := holds
  simp only at opens closes
  have hlength : 0 < node.text.length := by
    rw [opens]
    exact Nat.succ_pos _
  refine ⟨?_, ?_, ?_, ?_⟩
  · simp only [extentOf]
    omega
  · simp [extentOf]
  · intro character hcharacter
    simp only [extentOf, opens] at hcharacter
    rw [List.append_assoc, List.getElem?_append_right (Nat.le_refl _), Nat.sub_self] at hcharacter
    cases hcharacter
    exact blank
  · intro character hcharacter
    simp only [extentOf] at hcharacter
    rw [List.append_assoc, List.getElem?_append_right (by omega),
      List.getElem?_append_left (by omega)] at hcharacter
    have hplace : front.length + node.text.length - 1 - front.length = node.text.length - 1 := by
      omega
    rw [hplace, ← List.getLast?_eq_getElem?, closes] at hcharacter
    cases hcharacter
    exact solid

theorem isBlank_of_isMark {character : Char} (mark : isMark character = true) :
    Text.isBlank character = false := by
  simpa using (Bool.and_eq_true_iff.mp mark).2

theorem stands_spec {mark : Nat × Node} (holds : Holds source mark) (isSpec : IsSpec mark.2) :
    (extentOf mark).Stands source := by
  obtain ⟨first, rest, htext, hmark, -⟩ := isSpec.text.exists_cons
  obtain hlast | hlast := isSpec.text.getLast?
  · exact holds.stands htext hlast (isBlank_of_isMark hmark) rfl
  · exact holds.stands htext hlast (isBlank_of_isMark hmark) rfl

theorem stands_declaration {mark : Nat × Node} (holds : Holds source mark)
    (isDeclaration : IsDeclaration mark.2) : (extentOf mark).Stands source := by
  obtain ⟨position, node⟩ := mark
  cases isDeclaration with
  | @single line blanks spec passed ends isSpec =>
      have htext := Node.text_single .importDeclaration line ("import".toList ++ blanks) spec
      obtain hlast | hlast := isSpec.text.getLast?
      · exact holds.stands htext (htext ▸ getLast?_append_of_some hlast) rfl rfl
      · exact holds.stands htext (htext ▸ getLast?_append_of_some hlast) rfl rfl
  | @group line blanks list passed isGroup =>
      have htext := Node.text_single .importDeclaration line ("import".toList ++ blanks) list
      exact holds.stands htext (htext ▸ getLast?_append_of_some isGroup.getLast?) rfl rfl

theorem drop_extentOf {node : Node} {front back : Text}
    (holds : source = front ++ node.text ++ back) :
    source.drop (extentOf (front.length, node)).stop = back := by
  rw [holds]
  refine List.drop_left' ?_
  rw [List.length_append]
  rfl

/-- A terminator behind an extent ends its line or stands in front of something else. -/
theorem clears_of_terminator {extent : Extent} {semicolon : Bool} {ending more : Text}
    (terminator : Terminator semicolon ending)
    (behind : source.drop extent.stop = ending ++ more) :
    extent.Clears source (extent.stop + ending.length) := by
  refine ⟨Nat.le_add_right _ _, fun ends => ?_⟩
  rw [behind] at ends
  obtain ⟨-, hending⟩ := terminator.isLineEnd_append ends
  have hlength := congrArg List.length hending
  rw [List.length_append, List.length_singleton] at hlength
  rw [Extent.lineEnd, behind]
  omega

theorem clears_of_blanks {extent : Extent} {blanks more : Text} (passed : Blanks true blanks)
    (behind : source.drop extent.stop = blanks ++ ')' :: more) :
    extent.Clears source (extent.stop + blanks.length) := by
  refine ⟨Nat.le_add_right _ _, fun ends => ?_⟩
  rw [behind] at ends
  obtain ⟨rest, hblanks, -⟩ := passed.exists_of_isLineEnd rfl (by decide) ends
  have hlength := congrArg List.length hblanks
  rw [List.length_append, List.length_cons] at hlength
  rw [Extent.lineEnd, behind]
  omega

end Holds

/-! ## Specifications of a group -/

/-- A specification in a source that stands between two positions, clear of the
second one. -/
structure Between (source : Text) (start limit : Nat) (mark : Nat × Node) : Prop where
  holds : Holds source mark
  isSpec : IsSpec mark.2
  start_le : start ≤ mark.1
  clears : (extentOf mark).Clears source limit

theorem between_of_lines {items : List (Spaced Node)} (lines : SpecLines items)
    {source front back : Text} (holds : source = front ++ Node.textItems items ++ back) :
    (∀ mark ∈ Node.positions front.length items,
      Between source front.length (front.length + (Node.textItems items).length) mark) ∧
    (Node.positions front.length items).Pairwise fun first second =>
      (extentOf first).Clears source second.1 := by
  induction lines generalizing front with
  | @last spec gap isSpec closes =>
      have hsource : source = front ++ spec.text ++ (gap ++ ')' :: back) := by
        rw [holds]
        simp [Node.textItems]
      have hbehind := drop_extentOf hsource
      have hclears : (extentOf (front.length, spec)).Clears source
          ((extentOf (front.length, spec)).stop + gap.length) := by
        rcases closes with hblanks | ⟨semicolon, ⟨terminator, passed⟩⟩
        · exact clears_of_blanks hblanks hbehind
        · rw [List.append_assoc] at hbehind
          refine (clears_of_terminator terminator hbehind).mono ?_
          rw [List.length_append]
          omega
      refine ⟨?_, List.pairwise_singleton _ _⟩
      rintro mark hmark
      cases List.mem_singleton.mp hmark
      refine ⟨⟨front, _, hsource, rfl⟩, isSpec, Nat.le_refl _, hclears.mono ?_⟩
      simp only [extentOf, Node.textItems, List.length_append, List.length_singleton]
      omega
  | @cons spec gap rest semicolon isSpec separates later ih =>
      have hsource : source = front ++ spec.text ++ (gap ++ Node.textItems rest ++ back) := by
        rw [holds]
        simp [Node.textItems]
      have hbehind := drop_extentOf hsource
      have hrest : source = (front ++ spec.text ++ gap) ++ Node.textItems rest ++ back := by
        rw [hsource]
        simp
      obtain ⟨hmarks, hpairs⟩ := ih hrest
      rw [List.length_append, List.length_append] at hmarks hpairs
      have hclears : (extentOf (front.length, spec)).Clears source
          (front.length + spec.text.length + gap.length) := by
        cases separates with
        | mk terminator passed =>
            rw [List.append_assoc, List.append_assoc] at hbehind
            refine (clears_of_terminator terminator hbehind).mono ?_
            simp only [extentOf, List.length_append]
            omega
      have hlength : (Node.textItems (⟨spec, gap⟩ :: rest)).length =
          spec.text.length + gap.length + (Node.textItems rest).length := by
        simp only [Node.textItems, List.length_append]
      rw [Node.positions]
      refine ⟨?_, List.pairwise_cons.mpr ⟨?_, hpairs⟩⟩
      · intro mark hmark
        rcases List.mem_cons.mp hmark with rfl | hmark
        · refine ⟨⟨front, _, hsource, rfl⟩, isSpec, Nat.le_refl _, hclears.mono ?_⟩
          omega
        · obtain ⟨hholds, hspec, hstart, hlimit⟩ := hmarks mark hmark
          refine ⟨hholds, hspec, by omega, hlimit.mono ?_⟩
          omega
      · intro mark hmark
        exact hclears.mono (hmarks mark hmark).start_le

/-! ## Declarations -/

theorem specNodes_eq (position line : Nat) (lead : Text) (child : Node) :
    specNodes position (.mk .importDeclaration line ⟨lead, [⟨child, []⟩]⟩) =
      match child.kind with
      | .importSpec => [(position + lead.length, child)]
      | .importSpecList =>
          (child.childPositions (position + lead.length)).filter fun (_, spec) =>
            spec.kind = .importSpec
      | _ => [] :=
  List.append_nil _

theorem filter_positions {items : List (Spaced Node)} (lines : SpecLines items) (position : Nat) :
    ((Node.positions position items).filter fun (_, spec) => spec.kind = .importSpec) =
      Node.positions position items := by
  induction lines generalizing position with
  | last isSpec closes => simp [Node.positions, isSpec.kind]
  | cons isSpec separates later ih => simp [Node.positions, isSpec.kind, ih]

theorem specNodes_lines {items : List (Spaced Node)} (lines : SpecLines items)
    (position line inner : Nat) (lead opening : Text) :
    specNodes position (.mk .importDeclaration line
      ⟨lead, [⟨.mk .importSpecList inner ⟨opening, items⟩, []⟩]⟩) =
      Node.positions (position + lead.length + opening.length) items := by
  rw [specNodes_eq]
  exact filter_positions lines _

/-- The specifications of a declaration are at most one, or they stand behind its
start clear of each other and of the parenthesis behind them. -/
theorem specNodes_of_declaration {node : Node} (isDeclaration : IsDeclaration node)
    {source front back : Text} (holds : source = front ++ node.text ++ back) :
    (specNodes front.length node).length ≤ 1 ∨
      (∀ mark ∈ specNodes front.length node,
        Between source (front.length + 1) (front.length + node.text.length) mark) ∧
      (specNodes front.length node).Pairwise fun first second =>
        (extentOf first).Clears source second.1 := by
  cases isDeclaration with
  | single line passed ends isSpec =>
      left
      rw [specNodes_eq, isSpec.kind]
      exact Nat.le_refl 1
  | @group line blanks list passed isGroup =>
      cases isGroup with
      | empty line passed => exact .inl (Nat.zero_le 1)
      | @lines inner blanksInside passedInside items lines =>
          right
          let opening := front ++ ("import".toList ++ blanks) ++ '(' :: blanksInside
          have hsource : source = opening ++ Node.textItems items ++ back := by
            rw [holds]
            simp [opening, Node.text, Node.textItems]
          have hopening : opening.length =
              front.length + ("import".toList ++ blanks).length + ('(' :: blanksInside).length := by
            rw [List.length_append, List.length_append]
          have hlength : opening.length + (Node.textItems items).length =
              front.length + (Node.mk .importDeclaration line ⟨"import".toList ++ blanks,
                [⟨.mk .importSpecList inner ⟨'(' :: blanksInside, items⟩, []⟩]⟩).text.length := by
            simp [opening, Node.text, Node.textItems]
            omega
          obtain ⟨hmarks, hpairs⟩ := between_of_lines lines hsource
          rw [specNodes_lines lines, ← hopening, ← hlength]
          refine ⟨fun mark hmark => ?_, hpairs⟩
          obtain ⟨hholds, isSpec, hstart, hclears⟩ := hmarks mark hmark
          rw [List.length_cons] at hopening
          exact ⟨hholds, isSpec, by omega, hclears⟩

/-- What goes from a declaration stands clear of whatever the declaration is
clear of. -/
structure Inside (source : Text) (declaration target : Nat × Node) : Prop where
  stands : (extentOf target).Stands source
  start_le : declaration.1 ≤ target.1
  clears : ∀ limit, (extentOf declaration).Clears source limit →
    (extentOf target).Clears source limit

theorem inside_of_declaration (root : Node) (paths : List Text) {node : Node}
    (isDeclaration : IsDeclaration node) {source front back : Text}
    (holds : source = front ++ node.text ++ back) :
    (∀ target ∈ targets root paths (front.length, node),
      Inside source (front.length, node) target) ∧
    (targets root paths (front.length, node)).Pairwise fun first second =>
      (extentOf first).Clears source second.1 := by
  rcases targets_cases root paths (front.length, node) with hnone | hwhole | ⟨hsublist, hfewer⟩
  · rw [hnone]
    exact ⟨List.forall_mem_nil _, List.Pairwise.nil⟩
  · rw [hwhole]
    refine ⟨?_, List.pairwise_singleton _ _⟩
    rintro target htarget
    cases List.mem_singleton.mp htarget
    exact ⟨stands_declaration ⟨front, back, holds, rfl⟩ isDeclaration, Nat.le_refl _, fun _ => id⟩
  · rcases specNodes_of_declaration isDeclaration holds with hfew | ⟨hmarks, hpairs⟩
    · have hempty : targets root paths (front.length, node) = [] :=
        List.length_eq_zero_iff.mp (Nat.lt_one_iff.mp (Nat.lt_of_lt_of_le hfewer hfew))
      rw [hempty]
      exact ⟨List.forall_mem_nil _, List.Pairwise.nil⟩
    · refine ⟨fun target htarget => ?_, hpairs.sublist hsublist⟩
      obtain ⟨hholds, isSpec, hstart, hclears⟩ := hmarks target (hsublist.subset htarget)
      exact ⟨stands_spec hholds isSpec, Nat.le_of_succ_le hstart,
        fun limit hlimit => hclears.mono hlimit.stop_le⟩

/-! ## Whole sources -/

theorem kind_of_declaration {node : Node} (isDeclaration : IsDeclaration node) :
    node.kind = .importDeclaration := by
  cases isDeclaration <;> rfl

/-- An item of a source is an import declaration as described, or no declaration
at all. -/
theorem declaration_or_other {node : Node} (isTop : IsTop node) :
    IsDeclaration node ∧ node.kind = .importDeclaration ∨ node.kind ≠ .importDeclaration := by
  cases isTop with
  | clause kind isClause =>
      right
      rw [kind]
      decide
  | declaration isDeclaration => exact .inl ⟨isDeclaration, kind_of_declaration isDeclaration⟩
  | body kind =>
      right
      rintro hkind
      rw [hkind] at kind
      cases kind

/-- The nodes that are deleted from items of a source. -/
def targetsOf (root : Node) (paths : List Text) (nodes : List (Nat × Node)) : List (Nat × Node) :=
  (nodes.filter fun (_, child) => child.kind = .importDeclaration).flatMap (targets root paths)

section Items

variable {root : Node} {paths : List Text} {mark : Nat × Node} {nodes : List (Nat × Node)}

theorem targetsOf_declaration (kind : mark.2.kind = .importDeclaration) :
    targetsOf root paths (mark :: nodes) =
      targets root paths mark ++ targetsOf root paths nodes := by
  simp [targetsOf, kind]

theorem targetsOf_other (kind : mark.2.kind ≠ .importDeclaration) :
    targetsOf root paths (mark :: nodes) = targetsOf root paths nodes := by
  simp [targetsOf, kind]

end Items

/-- An import declaration that a source holds at a position. -/
structure Declared (source : Text) (mark : Nat × Node) : Prop where
  isDeclaration : IsDeclaration mark.2
  holds : Holds source mark

theorem Declared.stands {source : Text} {mark : Nat × Node} (declared : Declared source mark) :
    (extentOf mark).Stands source :=
  stands_declaration declared.holds declared.isDeclaration

/-- What goes from a declaration stands inside of it, each part clear of the next one. -/
theorem Declared.inside {source : Text} {mark : Nat × Node} (declared : Declared source mark)
    (root : Node) (paths : List Text) :
    (∀ target ∈ targets root paths mark, Inside source mark target) ∧
    (targets root paths mark).Pairwise fun first second =>
      (extentOf first).Clears source second.1 := by
  obtain ⟨position, node⟩ := mark
  obtain ⟨isDeclaration, front, back, hsource, rfl⟩ := declared
  exact inside_of_declaration root paths isDeclaration hsource

/-- The import declarations of a source stand in order, each one clear of the next one. -/
theorem declared_of_sourceItems {position : Nat} {nodes : List (Nat × Node)} {text : Text}
    (items : SourceItems position nodes text) {source front : Text}
    (holds : source = front ++ text) (start : front.length = position) :
    (∀ mark ∈ nodes.filter fun (_, child) => child.kind = .importDeclaration,
      Declared source mark ∧ position ≤ mark.1) ∧
    (nodes.filter fun (_, child) => child.kind = .importDeclaration).Pairwise
      fun first second => (extentOf first).Clears source second.1 := by
  induction items generalizing front with
  | stop position ends => exact ⟨List.forall_mem_nil _, List.Pairwise.nil⟩
  | @last position blanks rest node passed solid isTop read ends =>
      refine ⟨fun mark member => ?_, (List.pairwise_singleton _ _).filter _⟩
      obtain ⟨hmark, hkind⟩ := List.mem_filter.mp member
      cases List.mem_singleton.mp hmark
      rcases declaration_or_other isTop with ⟨isDeclaration, -⟩ | hother
      · refine ⟨⟨isDeclaration, front ++ blanks, rest, ?_, ?_⟩, Nat.le_add_right _ _⟩
        · rw [holds]
          simp
        · rw [List.length_append, start]
      · exact absurd (of_decide_eq_true hkind) hother
  | @item position blanks ending rest node nodes semicolon passed solid isTop read terminator reads
      later ih =>
      have hposition : (front ++ blanks).length = position + blanks.length := by
        rw [List.length_append, start]
      have hholds : source = (front ++ blanks) ++ node.text ++ (ending ++ rest) := by
        rw [holds]
        simp
      have hrest : source = (front ++ blanks ++ node.text ++ ending) ++ rest := by
        rw [hholds]
        simp
      have hlength : (front ++ blanks ++ node.text ++ ending).length =
          position + blanks.length + node.text.length + ending.length := by
        simp only [List.length_append, start]
      obtain ⟨hlater, hpairs⟩ := ih hrest hlength
      have hbehind : ∀ mark ∈ nodes.filter fun (_, child) => child.kind = .importDeclaration,
          Declared source mark ∧ position ≤ mark.1 := by
        intro mark member
        obtain ⟨hdeclared, hstart⟩ := hlater mark member
        exact ⟨hdeclared, by omega⟩
      rcases declaration_or_other isTop with ⟨isDeclaration, hkind⟩ | hkind
      · rw [List.filter_cons_of_pos (by simp [hkind])]
        refine ⟨List.forall_mem_cons.mpr ⟨⟨⟨isDeclaration, _, _, hholds, hposition⟩,
          Nat.le_add_right _ _⟩, hbehind⟩, List.pairwise_cons.mpr ⟨fun mark member => ?_, hpairs⟩⟩
        have hclears := clears_of_terminator terminator (drop_extentOf hholds)
        rw [hposition] at hclears
        exact hclears.mono (hlater mark member).2
      · rw [List.filter_cons_of_neg (by simp [hkind])]
        exact ⟨hbehind, hpairs⟩

theorem declared_of_parse? {source : Text} {root : Node} (parsed : parse? source = some root) :
    (∀ mark ∈ declarations root, Declared source mark) ∧
    (declarations root).Pairwise fun first second => (extentOf first).Clears source second.1 := by
  obtain ⟨mark, text, hsource, -, hitems⟩ := sourceItems_of_parse? parsed
  obtain ⟨hdeclared, hpairs⟩ := declared_of_sourceItems hitems hsource rfl
  exact ⟨fun mark member => (hdeclared mark member).1, hpairs⟩

/-- What goes from a source stands in order, each part clear of the next one. -/
theorem clears_of_parse? {source : Text} {root : Node} (parsed : parse? source = some root)
    (paths : List Text) :
    (∀ target ∈ allTargets root paths, (extentOf target).Stands source) ∧
    (allTargets root paths).Pairwise fun first second =>
      (extentOf first).Clears source second.1 := by
  obtain ⟨hdeclared, hpairs⟩ := declared_of_parse? parsed
  have hinside {mark target : Nat × Node} (declared : mark ∈ declarations root)
      (goes : target ∈ targets root paths mark) : Inside source mark target :=
    ((hdeclared mark declared).inside root paths).1 target goes
  constructor
  · intro target goes
    obtain ⟨mark, declared, goes⟩ := List.mem_flatMap.mp goes
    exact (hinside declared goes).stands
  · refine List.pairwise_flatMap.mpr ⟨fun mark declared =>
      ((hdeclared mark declared).inside root paths).2, ?_⟩
    refine hpairs.imp_of_mem fun {first second} hfirst hsecond hclears target goes other later => ?_
    exact ((hinside hfirst goes).clears _ hclears).mono (hinside hsecond later).start_le

/-- The deletions that remove unused imports lie in the text, and they are
disjoint if and only if no two of the removed nodes contend for the blank line
between them. -/
theorem deletions_disjoint_iff {source : Text} {root : Node} (parsed : parse? source = some root)
    (paths : List Text) :
    (∀ deletion ∈ (plan root source paths).deletions,
      deletion.start < deletion.stop ∧ deletion.stop ≤ source.length) ∧
    ((plan root source paths).deletions.Pairwise Extent.Disjoint ↔
      (allTargets root paths).Pairwise fun first second =>
        Extent.contend source (extentOf first) (extentOf second) = false) := by
  obtain ⟨hstands, hpairs⟩ := clears_of_parse? parsed paths
  rw [plan_deletions]
  constructor
  · intro deletion hdeletion
    obtain ⟨target, htarget, rfl⟩ := List.mem_map.mp hdeletion
    obtain ⟨hstart, hstop, hinside⟩ := (hstands target htarget).wholeLines
    have hnonempty := (hstands target htarget).nonempty
    exact ⟨by omega, hinside⟩
  · rw [List.pairwise_map]
    have hiff : (allTargets root paths).Pairwise fun first second =>
        ((extentOf first).wholeLines source).Disjoint ((extentOf second).wholeLines source) ↔
          Extent.contend source (extentOf first) (extentOf second) = false := by
      refine hpairs.imp_of_mem fun {first second} hfirst hsecond hclears => ?_
      exact Extent.disjoint_wholeLines_iff (hstands first hfirst) (hstands second hsecond) hclears
    constructor
    · intro hdisjoint
      exact (hdisjoint.and hiff).imp fun hboth => hboth.2.mp hboth.1
    · intro hsettled
      exact (hsettled.and hiff).imp fun hboth => hboth.2.mpr hboth.1

/-- Two paths that go, each on a line between blank lines. -/
def spacedSource : Text :=
  "package p\n\nimport (\n\t\"x\"\n\n\t\"a\"\n\n\t\"b\"\n\n\t\"y\"\n)\n".toList

theorem deletions_disjoint_spacedSource :
    ∃ root, parse? spacedSource = some root ∧
      (plan root spacedSource ["a".toList, "b".toList]).deletions.length = 2 ∧
      (plan root spacedSource ["a".toList, "b".toList]).deletions.Pairwise Extent.Disjoint := by
  have hshown : ((parse? spacedSource).map fun root =>
      ((plan root spacedSource ["a".toList, "b".toList]).deletions.length,
        decide ((allTargets root ["a".toList, "b".toList]).Pairwise fun first second =>
          Extent.contend spacedSource (extentOf first) (extentOf second) = false))) =
      some (2, true) := by decide +kernel
  obtain ⟨root, parsed, hroot⟩ := Option.map_eq_some_iff.mp hshown
  obtain ⟨hlength, hsettled⟩ := Prod.mk.injEq .. ▸ hroot
  exact ⟨root, parsed, hlength,
    (deletions_disjoint_iff parsed _).2.mpr (of_decide_eq_true hsettled)⟩

/-- Two paths that go from the end of a group. -/
def closingSource : Text :=
  "package p\n\nimport (\n\t\"x\"\n\n\t\"a\"\n\n\t\"b\"\n)\n".toList

/-- Both deletions take the blank line between them, and in the end it is the
parenthesis that is deleted. -/
theorem deletions_overlap_closingSource :
    ∃ root, parse? closingSource = some root ∧
      ¬ (plan root closingSource ["a".toList, "b".toList]).deletions.Pairwise Extent.Disjoint ∧
      (prune closingSource ["a".toList, "b".toList]).2 =
        "package p\n\nimport (\n\t\"x\"\n\n\n".toList := by
  have hshown : ((parse? closingSource).map fun root =>
      decide ((plan root closingSource ["a".toList, "b".toList]).deletions.Pairwise
        Extent.Disjoint)) = some false := by decide +kernel
  obtain ⟨root, parsed, hroot⟩ := Option.map_eq_some_iff.mp hshown
  exact ⟨root, parsed, of_decide_eq_false hroot, by decide +kernel⟩

end Deinstrument.Import
