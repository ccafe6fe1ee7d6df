import Deinstrument.Proofs.Pruning

/-!
# Which imports go

An import goes if its path is listed, it binds a local name, and no node outside of the
declarations of imports qualifies anything with that name. The search for such a node is
compared here with their plain existence in the tree. The paths that are reported are
those of the imports that go, in the order of the source, and a declaration is deleted
as a whole exactly if all of its imports go.
-/

namespace Deinstrument.Import

open Go

/-! ## References -/

/-- A node that is reached from the root of a tree without entering an import
declaration. -/
inductive Outside : Node → Node → Prop
  | here {node : Node} (other : node.kind ≠ .importDeclaration) : Outside node node
  | inside {node child found : Node} (other : node.kind ≠ .importDeclaration)
      (member : child ∈ node.children) (reached : Outside child found) : Outside node found

/-- A selector whose operand has a given text, or a qualified type whose package has
it: what is in front of the dot comes first in either. -/
def Qualifies (name : Text) (node : Node) : Prop :=
  (node.kind = .selectorExpression ∨ node.kind = .qualifiedType) ∧
    ∃ operand rest, node.children = operand :: rest ∧ operand.text = name

/-- Something in a tree, outside of its imports, is qualified with a name. -/
def Refers (root : Node) (name : Text) : Prop :=
  ∃ node, Outside root node ∧ Qualifies name node

section References

variable {name : Text}

theorem qualifier?_eq_some_iff (node : Node) :
    qualifier? node = some name ↔ Qualifies name node := by
  have hfirst : node.children.head?.map Node.text = some name ↔
      ∃ operand rest, node.children = operand :: rest ∧ operand.text = name := by
    cases node.children <;> simp
  unfold qualifier? Qualifies
  split
  next hkind => simp [hkind, hfirst]
  next hkind => simp [hkind, hfirst]
  next hselector hqualified =>
    constructor
    · intro hnone
      cases hnone
    · rintro ⟨hkind | hkind, -⟩
      · exact (hselector hkind).elim
      · exact (hqualified hkind).elim

/-- A tree refers to a name at its root or below it, unless it is an import
declaration. -/
theorem refers_iff (node : Node) :
    Refers node name ↔ node.kind ≠ .importDeclaration ∧
      (Qualifies name node ∨ ∃ child ∈ node.children, Refers child name) := by
  constructor
  · rintro ⟨found, reached, qualifies⟩
    cases reached with
    | here other => exact ⟨other, .inl qualifies⟩
    | inside other member reached => exact ⟨other, .inr ⟨_, member, found, reached, qualifies⟩⟩
  · rintro ⟨other, qualifies | ⟨child, member, found, reached, qualifies⟩⟩
    · exact ⟨node, .here other, qualifies⟩
    · exact ⟨found, .inside other member reached, qualifies⟩

mutual

/-- The search for a name is sound and complete. -/
theorem refersTo_iff : (node : Node) → (refersTo name node = true ↔ Refers node name)
  | .mk kind line ⟨lead, items⟩ => by
      have hitems := anyRefersTo_iff items
      have hchildren : (∃ item ∈ items, Refers item.value name) ↔
          ∃ child ∈ (Node.mk kind line ⟨lead, items⟩).children, Refers child name := by
        simp [Node.children, Node.row, Row.values]
      rw [refers_iff, ← hchildren, ← hitems, ← qualifier?_eq_some_iff]
      unfold refersTo
      split
      next hkind => simp [Node.kind, hkind]
      next hkind => simp [Node.kind, hkind]

theorem anyRefersTo_iff :
    (items : List (Spaced Node)) →
      (anyRefersTo name items = true ↔ ∃ item ∈ items, Refers item.value name)
  | [] => by simp [anyRefersTo]
  | ⟨node, gap⟩ :: rest => by
      simp [anyRefersTo, refersTo_iff node, anyRefersTo_iff rest]

end

end References

/-! ## Imports that go -/

/-- An import of one of several paths with a local name, to which nothing refers. -/
def Unused (root : Node) (paths : List Text) (imported : Import) : Prop :=
  imported.path ∈ paths ∧ ∃ name, imported.localName = some name ∧ ¬Refers root name

theorem isUnused_iff (root : Node) (paths : List Text) (imported : Import) :
    isUnused root paths imported = true ↔ Unused root paths imported := by
  unfold isUnused Unused
  cases imported.localName with
  | none => simp
  | some name => simp [← refersTo_iff]

instance (root : Node) (paths : List Text) (imported : Import) :
    Decidable (Unused root paths imported) :=
  decidable_of_iff _ (isUnused_iff root paths imported)

/-- A specification of an unused import. -/
def Goes (root : Node) (paths : List Text) (spec : Nat × Node) : Prop :=
  ∃ imported, ofNode? spec.2 = some imported ∧ Unused root paths imported

theorem any_isUnused_iff (root : Node) (paths : List Text) (spec : Nat × Node) :
    (ofNode? spec.2).any (isUnused root paths) = true ↔ Goes root paths spec := by
  simp [Goes, Option.any_eq_true, isUnused_iff]

instance (root : Node) (paths : List Text) (spec : Nat × Node) :
    Decidable (Goes root paths spec) :=
  decidable_of_iff _ (any_isUnused_iff root paths spec)

section Plan

variable {root : Node} {paths : List Text}

theorem doomed_eq (root : Node) (paths : List Text) (specs : List (Nat × Node)) :
    doomed root paths specs = specs.filter fun spec => Goes root paths spec := by
  refine List.filter_congr fun spec _ => ?_
  rw [Bool.eq_iff_iff, any_isUnused_iff, decide_eq_true_iff]

/-- The paths that go with a declaration. -/
theorem planDeclaration_removed (root : Node) (text : Text) (paths : List Text)
    (declaration : Nat × Node) :
    (planDeclaration root text paths declaration).removed =
      (((specNodes declaration.1 declaration.2).filterMap fun (_, spec) => ofNode? spec).filter
        fun imported => Unused root paths imported).map (·.path) := by
  simp only [planDeclaration]
  induction specNodes declaration.1 declaration.2 with
  | nil => rfl
  | cons spec specs ih =>
      cases himported : ofNode? spec.2 with
      | none => simpa [List.filterMap_cons, himported] using ih
      | some imported =>
          by_cases hunused : Unused root paths imported
          · have := (isUnused_iff root paths imported).mpr hunused
            simpa [List.filterMap_cons, himported, this, hunused] using ih
          · have := mt (isUnused_iff root paths imported).mp hunused
            simpa [List.filterMap_cons, himported, this, hunused] using ih

theorem plan_removed (root : Node) (text : Text) (paths : List Text) :
    (plan root text paths).removed =
      ((ofRoot root).filter fun imported => Unused root paths imported).map (·.path) := by
  simp only [plan, ofRoot, List.flatMap_map, planDeclaration_removed, List.filter_flatMap,
    List.map_flatMap]

/-- A declaration goes as a whole if it has specifications and all of them go. -/
theorem targets_eq (root : Node) (paths : List Text) (declaration : Nat × Node) :
    targets root paths declaration =
      if specNodes declaration.1 declaration.2 ≠ [] ∧
          ∀ spec ∈ specNodes declaration.1 declaration.2, Goes root paths spec then [declaration]
      else (specNodes declaration.1 declaration.2).filter fun spec => Goes root paths spec := by
  simp only [targets, doomed_eq]
  generalize specNodes declaration.1 declaration.2 = specs
  have hall : (specs.filter fun spec => decide (Goes root paths spec)).length = specs.length ↔
      ∀ spec ∈ specs, Goes root paths spec := by
    simp
  simp only [hall]
  split
  next hempty =>
    have hnone := List.isEmpty_iff.mp hempty
    have hopen : ¬(specs ≠ [] ∧ ∀ spec ∈ specs, Goes root paths spec) := by
      rintro ⟨hspecs, hgo⟩
      rw [List.filter_eq_self.mpr (by simpa using hgo)] at hnone
      exact hspecs hnone
    rw [if_neg hopen, hnone]
  next hsome =>
    have hspecs : specs ≠ [] := by
      rintro rfl
      exact hsome rfl
    by_cases hgo : ∀ spec ∈ specs, Goes root paths spec
    · rw [if_pos hgo, if_pos ⟨hspecs, hgo⟩]
    · rw [if_neg hgo, if_neg fun both => hgo both.2]

end Plan

/-! ## Whole declarations -/

section Whole

variable {source : Text} {root : Node} {paths : List Text}

/-- No deletion for something behind a position that holds no blank reaches back to it. -/
theorem lt_start_wholeLines {extent target : Extent} (stands : extent.Stands source)
    (behind : extent.start < target.start) :
    extent.start < (target.wholeLines source).start := by
  by_contra hreaches
  have hinside : extent.start < source.length :=
    Nat.lt_of_lt_of_le stands.nonempty stands.inside
  have hfound := List.getElem?_eq_getElem hinside
  have hblank := Extent.isBlank_of_wholeLines (Nat.not_lt.mp hreaches) behind hfound
  rw [stands.opens _ hfound] at hblank
  cases hblank

/-- Where only some specifications of a declaration go, they stand behind its start. -/
theorem lt_start_of_filter {declaration target : Nat × Node}
    (declared : Declared source declaration)
    (some_stay : ¬∀ spec ∈ specNodes declaration.1 declaration.2, Goes root paths spec)
    (member : target ∈ specNodes declaration.1 declaration.2) (goes : Goes root paths target) :
    declaration.1 < target.1 := by
  obtain ⟨position, node⟩ := declaration
  obtain ⟨isDeclaration, front, back, hsource, rfl⟩ := declared
  rcases specNodes_of_declaration isDeclaration hsource with hfew | ⟨hmarks, -⟩
  · refine absurd (fun spec other => ?_) some_stay
    obtain ⟨single, hsingle⟩ := List.length_eq_one_iff.mp
      (Nat.le_antisymm hfew (List.length_pos_of_mem member))
    rw [hsingle] at member other
    rw [List.mem_singleton.mp other, ← List.mem_singleton.mp member]
    exact goes
  · exact (hmarks target member).start_le

/-- A deletion that contains a declaration is the one for all of its specifications. -/
theorem goes_of_covered (parsed : parse? source = some root) {declaration : Nat × Node}
    (member : declaration ∈ declarations root) {deletion : Extent}
    (planned : deletion ∈ (plan root source paths).deletions)
    (start_le : deletion.start ≤ (extentOf declaration).start)
    (le_stop : (extentOf declaration).stop ≤ deletion.stop) :
    ∀ spec ∈ specNodes declaration.1 declaration.2, Goes root paths spec := by
  obtain ⟨hdeclared, hpairs⟩ := declared_of_parse? parsed
  have hstands := (hdeclared declaration member).stands
  rw [plan_deletions] at planned
  obtain ⟨target, htarget, rfl⟩ := List.mem_map.mp planned
  obtain ⟨other, hother, htarget⟩ := List.mem_flatMap.mp htarget
  have hinside := ((hdeclared other hother).inside root paths).1 target htarget
  by_contra some_stay
  -- The target belongs to this declaration, to one in front of it or to one behind it.
  by_cases hsame : other = declaration
  · subst hsame
    rw [targets_eq, if_neg fun both => some_stay both.2] at htarget
    obtain ⟨hspec, hgoes⟩ := List.mem_filter.mp htarget
    have hlt := lt_start_of_filter (hdeclared other hother) some_stay hspec (of_decide_eq_true hgoes)
    exact absurd start_le (Nat.not_le.mpr (lt_start_wholeLines hstands hlt))
  · let apart (first second : Nat × Node) : Prop :=
      (extentOf first).Clears source second.1 ∨ (extentOf second).Clears source first.1
    have : Std.Symm apart := ⟨fun _ _ => Or.symm⟩
    have hordered : (declarations root).Pairwise apart := hpairs.imp Or.inl
    rcases hordered.forall hother member hsame with hfront | hback
    · have hstop := (Extent.wholeLines_stop_le hinside.stands hstands
        (hinside.clears _ hfront)).1
      have hnonempty := hstands.nonempty
      omega
    · have hlt : (extentOf declaration).start < target.1 :=
        Nat.lt_of_lt_of_le hstands.nonempty (Nat.le_trans hback.stop_le hinside.start_le)
      exact absurd start_le (Nat.not_le.mpr (lt_start_wholeLines hstands hlt))

end Whole

/-- The paths that go are those of the unused imports, in the order of the source. For
each declaration either the declaration as a whole is deleted or those of its
specifications that go, with their lines. In a source that parses, one of the deletions
contains a given declaration with specifications exactly if all of these go. -/
theorem plan_removes_unused (root : Node) (text : Text) (paths : List Text) :
    (plan root text paths).removed =
      ((ofRoot root).filter fun imported => Unused root paths imported).map (·.path) ∧
    (plan root text paths).deletions =
      ((declarations root).flatMap fun declaration =>
        let specs := specNodes declaration.1 declaration.2
        if specs ≠ [] ∧ ∀ spec ∈ specs, Goes root paths spec then [declaration]
        else specs.filter fun spec => Goes root paths spec).map
          (fun target => (extentOf target).wholeLines text) ∧
    (parse? text = some root → ∀ declaration ∈ declarations root,
      specNodes declaration.1 declaration.2 ≠ [] →
      ((∃ deletion ∈ (plan root text paths).deletions,
          deletion.start ≤ (extentOf declaration).start ∧
            (extentOf declaration).stop ≤ deletion.stop) ↔
        ∀ spec ∈ specNodes declaration.1 declaration.2, Goes root paths spec)) := by
  refine ⟨plan_removed root text paths, ?_, ?_⟩
  · rw [plan_deletions, allTargets, funext (targets_eq root paths)]
  · intro parsed declaration member hspecs
    constructor
    · rintro ⟨deletion, planned, start_le, le_stop⟩
      exact goes_of_covered parsed member planned start_le le_stop
    · intro hgo
      have htarget : declaration ∈ allTargets root paths := by
        refine List.mem_flatMap.mpr ⟨declaration, member, ?_⟩
        rw [targets_eq, if_pos ⟨hspecs, hgo⟩]
        exact List.mem_singleton_self declaration
      obtain ⟨hstart, hstop, -⟩ := ((declared_of_parse? parsed).1 declaration member).stands.wholeLines
      rw [plan_deletions]
      exact ⟨_, List.mem_map_of_mem htarget, hstart, hstop⟩

/-- A group with an import that a type uses and one whose name is only called, a blank one,
and an import that nothing uses. -/
def assortedSource : Text :=
  ("package p\n\nimport (\n\t\"a\"\n\tio \"x/b\"\n)\n\nimport _ \"c\"\n\nimport (\n\td \"d\"\n)\n\n" ++
    "var e a.T\n\nfunc f() \x7b\n\tio()\n\x7d\n").toList

theorem plan_removes_unused_assortedSource :
    let paths := ["a".toList, "x/b".toList, "c".toList, "d".toList]
    ∃ root group blank single, parse? assortedSource = some root ∧
      declarations root = [group, blank, single] ∧
      (plan root assortedSource paths).removed = ["x/b".toList, "d".toList] ∧
      (∃ deletion ∈ (plan root assortedSource paths).deletions,
        deletion.start ≤ (extentOf single).start ∧ (extentOf single).stop ≤ deletion.stop) ∧
      ¬∃ deletion ∈ (plan root assortedSource paths).deletions,
        deletion.start ≤ (extentOf group).start ∧ (extentOf group).stop ≤ deletion.stop := by
  intro paths
  have hshown : ((parse? assortedSource).map fun root =>
      (((ofRoot root).filter fun imported => Unused root paths imported).map (·.path),
        (declarations root).map fun (declaration : Nat × Node) =>
          let specs := specNodes declaration.1 declaration.2
          (specs.isEmpty, decide (∀ spec ∈ specs, Goes root paths spec)))) =
      some (["x/b".toList, "d".toList], [(false, false), (false, false), (false, true)]) := by
    decide +kernel
  obtain ⟨root, parsed, hroot⟩ := Option.map_eq_some_iff.mp hshown
  obtain ⟨hpaths, hwhole⟩ := Prod.mk.injEq .. ▸ hroot
  obtain ⟨group, rest, hrest, hgroup, hwhole⟩ := List.map_eq_cons_iff.mp hwhole
  obtain ⟨blank, rest, rfl, hblank, hwhole⟩ := List.map_eq_cons_iff.mp hwhole
  obtain ⟨single, rest, rfl, hsingle, hwhole⟩ := List.map_eq_cons_iff.mp hwhole
  obtain rfl := List.map_eq_nil_iff.mp hwhole
  obtain ⟨hremoved, -, hcovered⟩ := plan_removes_unused root assortedSource paths
  have hiff (declaration : Nat × Node) (whole : Bool)
      (member : declaration ∈ [group, blank, single])
      (shown : ((specNodes declaration.1 declaration.2).isEmpty,
        decide (∀ spec ∈ specNodes declaration.1 declaration.2, Goes root paths spec)) =
          (false, whole)) :
      (∃ deletion ∈ (plan root assortedSource paths).deletions,
        deletion.start ≤ (extentOf declaration).start ∧
          (extentOf declaration).stop ≤ deletion.stop) ↔ whole = true := by
    obtain ⟨hsome, hgo⟩ := Prod.mk.injEq .. ▸ shown
    rw [hcovered parsed declaration (hrest ▸ member) (List.isEmpty_eq_false_iff.mp hsome), ← hgo,
      decide_eq_true_iff]
  refine ⟨root, group, blank, single, parsed, hrest, hremoved.trans hpaths, ?_, ?_⟩
  · exact (hiff single true (by simp) hsingle).mpr rfl
  · rw [hiff group false (by simp) hgroup]
    exact Bool.false_ne_true

end Deinstrument.Import
