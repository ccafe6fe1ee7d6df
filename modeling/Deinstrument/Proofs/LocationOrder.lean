import Deinstrument.Location
import Deinstrument.Proofs.PackageLists

/-!
# Sorted locations

Locations are compared by their steps. That is a strict order in which any two
different sequences of steps can be compared, so a sorted list holds one location
for each sequence of steps that was put into it. A name below a location is one step
more.
-/

namespace Deinstrument

namespace Step

theorem before_irrefl (step : Step) : ¬step.before step = true := by
  cases step with
  | name text =>
      simp only [before, decide_eq_true_eq]
      exact List.lt_irrefl text
  | _ => simp [before]

theorem before_trans {first second third : Step} (early : first.before second = true)
    (late : second.before third = true) : first.before third = true := by
  cases first with
  | name front =>
      cases second with
      | name middle =>
          cases third with
          | name back =>
              simp only [before, decide_eq_true_eq] at early late ⊢
              exact List.lt_trans early late
          | _ => simp [before, rank] at late
      | _ => simp [before, rank] at early
  | _ => cases second <;> cases third <;> simp_all [before, rank]

theorem before_trichotomous (first second : Step) (early : ¬first.before second = true)
    (late : ¬second.before first = true) : first = second := by
  cases first with
  | name front =>
      cases second with
      | name back =>
          simp only [before, decide_eq_true_eq] at early late
          rw [List.le_antisymm late early]
      | _ => simp [before, rank] at late
  | _ => cases second <;> simp_all [before, rank]

end Step

namespace Location

/-! ## The order of locations -/

theorem isBefore_iff_lex {first second : List Step} :
    isBefore first second = true ↔
      List.Lex (fun step other => step.before other = true) first second := by
  induction first generalizing second with
  | nil => cases second <;> simp [isBefore]
  | cons step rest ih =>
      cases second with
      | nil => simp [isBefore]
      | cons other others =>
          rw [List.cons_lex_cons_iff, isBefore]
          split
          next hsame =>
            rw [ih, hsame]
            simp [Step.before_irrefl]
          next hother => simp [hother]

theorem ne_of_isBefore {first second : List Step} (before : isBefore first second = true) :
    first ≠ second := by
  rintro rfl
  exact List.lex_irrefl Step.before_irrefl first (isBefore_iff_lex.mp before)

theorem isBefore_trans {first second third : List Step} (early : isBefore first second = true)
    (late : isBefore second third = true) : isBefore first third = true :=
  isBefore_iff_lex.mpr
    (List.lex_trans Step.before_trans (isBefore_iff_lex.mp early) (isBefore_iff_lex.mp late))

theorem isBefore_of_not {first second : List Step} (differs : first ≠ second)
    (late : ¬isBefore first second = true) : isBefore second first = true := by
  by_contra early
  rw [isBefore_iff_lex] at early late
  exact differs (List.lex_trichotomous Step.before_trichotomous early late)

/-! ## Sorting -/

/-- Locations in order, with different steps each. -/
def IsSorted (locations : List Text) : Prop :=
  locations.Pairwise fun first second => isBefore (steps first) (steps second) = true

theorem mem_of_mem_insert {location other : Text} {locations : List Text}
    (member : other ∈ insert location locations) : other = location ∨ other ∈ locations := by
  fun_induction insert location locations with
  | case1 => exact .inl (List.mem_singleton.mp member)
  | case2 first rest same => exact .inr member
  | case3 first rest differs before => exact List.mem_cons.mp member
  | case4 first rest differs before ih =>
      rcases List.mem_cons.mp member with rfl | hlater
      · exact .inr List.mem_cons_self
      · exact (ih hlater).imp_right (List.mem_cons_of_mem first)

theorem subset_insert (location : Text) (locations : List Text) :
    locations ⊆ insert location locations := by
  fun_induction insert location locations with
  | case1 => exact List.nil_subset _
  | case2 first rest same => exact List.Subset.refl _
  | case3 first rest differs before => exact List.subset_cons_self _ _
  | case4 first rest differs before ih => exact List.cons_subset_cons first ih

theorem exists_mem_insert (location : Text) (locations : List Text) :
    ∃ other ∈ insert location locations, steps other = steps location := by
  fun_induction insert location locations with
  | case1 => exact ⟨location, List.mem_singleton_self _, rfl⟩
  | case2 first rest same => exact ⟨first, List.mem_cons_self, same.symm⟩
  | case3 first rest differs before => exact ⟨location, List.mem_cons_self, rfl⟩
  | case4 first rest differs before ih =>
      obtain ⟨other, member, same⟩ := ih
      exact ⟨other, List.mem_cons_of_mem _ member, same⟩

theorem isSorted_insert {locations : List Text} (sorted : IsSorted locations) (location : Text) :
    IsSorted (insert location locations) := by
  fun_induction insert location locations with
  | case1 => exact List.pairwise_singleton _ _
  | case2 first rest same => exact sorted
  | case3 first rest differs before =>
      refine List.pairwise_cons.mpr ⟨fun other member => ?_, sorted⟩
      rcases List.mem_cons.mp member with rfl | hlater
      · exact before
      · exact isBefore_trans before ((List.pairwise_cons.mp sorted).1 other hlater)
  | case4 first rest differs before ih =>
      obtain ⟨hfirst, hrest⟩ := List.pairwise_cons.mp sorted
      refine List.pairwise_cons.mpr ⟨fun other member => ?_, ih hrest⟩
      rcases mem_of_mem_insert member with rfl | hlater
      · exact isBefore_of_not differs before
      · exact hfirst other hlater

theorem sorted_concat (locations : List Text) (location : Text) :
    sorted (locations ++ [location]) = insert location (sorted locations) := by
  rw [sorted, List.foldl_concat]
  rfl

theorem isSorted_sorted (locations : List Text) : IsSorted (sorted locations) := by
  induction locations using List.reverseRecOn with
  | nil => exact .nil
  | append_singleton front location ih =>
      rw [sorted_concat]
      exact isSorted_insert ih location

theorem sorted_subset (locations : List Text) : sorted locations ⊆ locations := by
  induction locations using List.reverseRecOn with
  | nil => exact List.nil_subset _
  | append_singleton front location ih =>
      intro other member
      rw [sorted_concat] at member
      rcases mem_of_mem_insert member with rfl | hearlier
      · exact List.mem_append_right front (List.mem_singleton_self _)
      · exact List.mem_append_left _ (ih hearlier)

/-- Each location is kept under one of its spellings. -/
theorem exists_mem_sorted {locations : List Text} {location : Text}
    (member : location ∈ locations) :
    ∃ other ∈ sorted locations, steps other = steps location := by
  induction locations using List.reverseRecOn with
  | nil => cases member
  | append_singleton front last ih =>
      rw [sorted_concat]
      rcases List.mem_append.mp member with hearlier | hlast
      · obtain ⟨other, hother, same⟩ := ih hearlier
        exact ⟨other, subset_insert last _ hother, same⟩
      · rw [List.mem_singleton.mp hlast]
        exact exists_mem_insert last _

/-! ## Names below a location -/

/-- The name of a file or of a directory. -/
structure IsName (name : Text) : Prop where
  nonempty : name ≠ []
  undivided : '/' ∉ name
  notHere : name ≠ ['.']
  notUp : name ≠ ['.', '.']

instance (name : Text) : Decidable (IsName name) :=
  decidable_of_iff (name ≠ [] ∧ '/' ∉ name ∧ name ≠ ['.'] ∧ name ≠ ['.', '.'])
    ⟨fun ⟨nonempty, undivided, notHere, notUp⟩ => ⟨nonempty, undivided, notHere, notUp⟩,
      fun ⟨nonempty, undivided, notHere, notUp⟩ => ⟨nonempty, undivided, notHere, notUp⟩⟩

theorem inner_append (front back : List Text) : inner (front ++ back) = inner front ++ inner back :=
  List.filterMap_append

theorem inner_name {name : Text} (isName : IsName name) : inner [name] = [.name name] := by
  simp [inner, isName.nonempty, isName.notHere, isName.notUp]

/-- A name that is put below a location comes behind its pieces; a slash at the end of
the location counts for nothing. -/
theorem exists_splitOn_below (location : Text) {name : Text} (isName : IsName name) :
    ∃ first rest, Text.splitOn '/' (below location name) = first :: (rest ++ [name]) ∧
      (Text.splitOn '/' location = first :: rest ∨
        Text.splitOn '/' location = first :: (rest ++ [[]])) := by
  unfold below
  split
  next hslash =>
    obtain ⟨stem, rfl⟩ := List.getLast?_eq_some_iff.mp hslash
    obtain ⟨first, rest, hstem⟩ :=
      List.exists_cons_of_ne_nil (Text.splitOn_ne_nil '/' stem)
    refine ⟨first, rest, ?_, .inr ?_⟩
    · rw [List.append_assoc, List.singleton_append, Text.splitOn_append_cons, hstem,
        Text.splitOn_of_not_mem isName.undivided]
      rfl
    · rw [Text.splitOn_append_cons, hstem]
      rfl
  next =>
    obtain ⟨first, rest, hlocation⟩ :=
      List.exists_cons_of_ne_nil (Text.splitOn_ne_nil '/' location)
    refine ⟨first, rest, ?_, .inl hlocation⟩
    rw [Text.splitOn_append_cons, hlocation, Text.splitOn_of_not_mem isName.undivided]
    rfl

/-- What the first piece of a location stands for, given whether more follows. -/
def start (first : Text) (more : Bool) : List Step :=
  if first = [] then (if more then [.root] else [])
  else if first = ['.'] then [.here] else inner [first]

theorem steps_of_splitOn {location first : Text} {rest : List Text}
    (split : Text.splitOn '/' location = first :: rest) :
    steps location = start first (!rest.isEmpty) ++ inner rest := by
  rw [steps, split, start]
  dsimp only
  split
  · cases rest <;> simp [inner]
  · split
    · rfl
    · rw [← inner_append]
      rfl

theorem isName_of_mem_inner {pieces : List Text} (undivided : ∀ piece ∈ pieces, '/' ∉ piece)
    {name : Text} (member : .name name ∈ inner pieces) : IsName name := by
  obtain ⟨piece, hpiece, hname⟩ := List.mem_filterMap.mp member
  split at hname
  next => cases hname
  next hsolid =>
    split at hname
    next => cases hname
    next hup =>
      cases hname
      simp only [Bool.or_eq_true, decide_eq_true_eq, not_or] at hsolid
      exact ⟨hsolid.1, undivided _ hpiece, hsolid.2, hup⟩

/-- The names among the steps of a location are proper ones. -/
theorem isName_of_mem_steps {location name : Text} (member : .name name ∈ steps location) :
    IsName name := by
  obtain ⟨first, rest, hsplit⟩ := List.exists_cons_of_ne_nil (Text.splitOn_ne_nil '/' location)
  have hundivided : ∀ piece ∈ first :: rest, '/' ∉ piece := by
    rw [← hsplit]
    exact fun piece member => Text.not_mem_of_mem_splitOn member
  obtain ⟨hfirst, hrest⟩ := List.forall_mem_cons.mp hundivided
  rw [steps_of_splitOn hsplit, start] at member
  rcases List.mem_append.mp member with hmember | hmember
  · split at hmember
    next => split at hmember <;> simp at hmember
    next =>
      split at hmember
      next => simp at hmember
      next => exact isName_of_mem_inner (List.forall_mem_singleton.mpr hfirst) hmember
  · exact isName_of_mem_inner hrest hmember

theorem steps_below {location name : Text} (nonempty : location ≠ []) (isName : IsName name) :
    steps (below location name) = steps location ++ [.name name] := by
  obtain ⟨first, rest, hbelow, hlocation⟩ := exists_splitOn_below location isName
  rw [steps_of_splitOn hbelow, inner_append, inner_name isName]
  rcases hlocation with hlocation | hlocation
  · have hstart : start first (!(rest ++ [name]).isEmpty) = start first (!rest.isEmpty) := by
      cases rest with
      | cons second more => rfl
      | nil =>
          -- A single empty piece would be an empty location.
          have hfirst : first ≠ [] := by
            rintro rfl
            have hjoin := congrArg (List.intercalate ['/'])
              ((Text.splitOn_eq '/' location).symm.trans hlocation)
            rw [List.intercalate_splitOn] at hjoin
            exact nonempty hjoin
          simp [start, hfirst]
    rw [steps_of_splitOn hlocation, hstart, List.append_assoc]
  · rw [steps_of_splitOn hlocation, inner_append]
    have hstart : start first (!(rest ++ [name]).isEmpty) = start first (!(rest ++ [[]]).isEmpty) := by
      cases rest <;> rfl
    have hblank : inner [[]] = [] := rfl
    rw [hstart, hblank, List.append_nil, List.append_assoc]

theorem below_ne_nil (location name : Text) (nonempty : location ≠ []) :
    below location name ≠ [] := by
  unfold below
  split <;> simp [nonempty]

theorem steps_descend {location : Text} (nonempty : location ≠ []) {names : List Text}
    (isName : ∀ name ∈ names, IsName name) :
    steps (names.foldl below location) = steps location ++ names.map .name := by
  induction names generalizing location with
  | nil => simp
  | cons name rest ih =>
      obtain ⟨hname, hrest⟩ := List.forall_mem_cons.mp isName
      rw [List.foldl_cons, ih (below_ne_nil location name nonempty) hrest,
        steps_below nonempty hname, List.map_cons, List.append_assoc]
      rfl

end Location

end Deinstrument
