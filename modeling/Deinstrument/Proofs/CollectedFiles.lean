import Deinstrument.FileTree.Collect
import Deinstrument.Proofs.LocationOrder
import Deinstrument.Proofs.Scheduling

/-!
# Collected files

The files to process are collected under the spelling of the location through which
they were found, and repetitions are told by that spelling: by its steps. A file that
is found through two locations is collected once if the inner location is spelled as
the outer one and the names between them, and twice otherwise, as `./x.go` and `x.go`
are.
-/

namespace Deinstrument

open Location (IsName steps below)

/-- The place that an entry is at. -/
def Entry.place : Entry → Place
  | .file place => place
  | .directory place => place

namespace FileTree

variable {tree : FileTree} {here : Place}

/-- A tree in which files have proper names and no file is a directory. -/
structure IsProper (tree : FileTree) : Prop where
  isName : ∀ file ∈ tree.files, ∀ name ∈ file.1, IsName name
  notDirectory : ∀ file ∈ tree.files, tree.isDirectory file.1 = false

instance (tree : FileTree) : Decidable tree.IsProper :=
  decidable_of_iff ((∀ file ∈ tree.files, ∀ name ∈ file.1, IsName name) ∧
      ∀ file ∈ tree.files, tree.isDirectory file.1 = false)
    ⟨fun ⟨isName, notDirectory⟩ => ⟨isName, notDirectory⟩,
      fun ⟨isName, notDirectory⟩ => ⟨isName, notDirectory⟩⟩

theorem isFile_iff {place : Place} :
    tree.isFile place = true ↔ place ∈ tree.files.map (·.1) := by
  rw [isFile, contents?, List.lookup_isSome_iff, List.mem_map]
  simp only [beq_iff_eq, eq_comm (a := place)]

theorem IsProper.isName_of_isFile (proper : tree.IsProper) {place : Place}
    (file : tree.isFile place = true) : ∀ name ∈ place, IsName name := by
  obtain ⟨found, member, rfl⟩ := List.mem_map.mp (isFile_iff.mp file)
  exact proper.isName found member

theorem IsProper.not_isDirectory (proper : tree.IsProper) {place : Place}
    (file : tree.isFile place = true) : ¬tree.isDirectory place = true := by
  obtain ⟨found, member, rfl⟩ := List.mem_map.mp (isFile_iff.mp file)
  simp [proper.notDirectory found member]

/-- Whatever stands in front of the names that lead to a file is a directory. -/
theorem isDirectory_of_isFile {front : Place} {name : Text} {rest : Place}
    (file : tree.isFile (front ++ name :: rest) = true) : tree.isDirectory front = true := by
  obtain ⟨found, member, hfound⟩ := List.mem_map.mp (isFile_iff.mp file)
  have hbelow : (tree.files.any fun other =>
      front.isPrefixOf other.1 && front.length < other.1.length) = true := by
    refine List.any_eq_true.mpr ⟨found, member, ?_⟩
    rw [hfound]
    simp
  rw [isDirectory, hbelow, Bool.or_true]

theorem isDirectory_dropLast {place : Place} (directory : tree.isDirectory place = true) :
    tree.isDirectory place.dropLast = true := by
  have hshort : place.dropLast <+: place := List.dropLast_prefix place
  simp only [isDirectory, Bool.or_eq_true, List.any_eq_true, Bool.and_eq_true, decide_eq_true_eq,
    List.isPrefixOf_iff_prefix, List.isEmpty_iff] at directory ⊢
  rcases directory with (rfl | ⟨other, member, hprefix⟩) | ⟨file, member, hprefix, hlength⟩
  · exact .inl (.inl rfl)
  · exact .inl (.inr ⟨other, member, hshort.trans hprefix⟩)
  · exact .inr ⟨file, member, hshort.trans hprefix, Nat.lt_of_le_of_lt hshort.length_le hlength⟩

/-! ## Following a location -/

theorem exists_of_bind_eq_ok {ε α β : Type} {first : Except ε α} {next : α → Except ε β} {result : β}
    (done : (first >>= next) = .ok result) : ∃ value, first = .ok value ∧ next value = .ok result := by
  cases first with
  | error cause => cases done
  | ok value => exact ⟨value, rfl, done⟩

/-- What an entry says about the tree. -/
def Holds (tree : FileTree) : Entry → Prop
  | .file place => tree.isFile place = true
  | .directory place => tree.isDirectory place = true

theorem holds_follow {entry next : Entry} {piece : Text} (holds : tree.Holds entry)
    (followed : tree.follow entry piece = .ok next) : tree.Holds next := by
  cases entry with
  | file place => cases followed
  | directory place =>
      unfold follow at followed
      dsimp only at followed
      split at followed
      · cases followed
        exact holds
      · split at followed
        · cases followed
          exact isDirectory_dropLast holds
        · split at followed
          · cases followed
            assumption
          · split at followed
            · cases followed
              assumption
            · cases followed

theorem holds_foldlM {pieces : List Text} {entry next : Entry} (holds : tree.Holds entry)
    (followed : pieces.foldlM tree.follow entry = .ok next) : tree.Holds next := by
  induction pieces generalizing entry with
  | nil =>
      cases followed
      exact holds
  | cons piece rest ih =>
      obtain ⟨middle, hmiddle, hrest⟩ := exists_of_bind_eq_ok followed
      exact ih (holds_follow holds hmiddle) hrest

theorem resolve_eq_ok_iff {location : Text} {entry : Entry} :
    tree.resolve here location = .ok entry ↔ location ≠ [] ∧
      (Text.splitOn '/' location).foldlM tree.follow
        (.directory (if location.head? = some '/' then [] else here)) = .ok entry := by
  unfold resolve
  split
  next hnil => simp [hnil]
  next hne => simp [hne]

theorem holds_resolve (working : tree.isDirectory here = true) {location : Text} {entry : Entry}
    (resolved : tree.resolve here location = .ok entry) : tree.Holds entry := by
  refine holds_foldlM ?_ (resolve_eq_ok_iff.mp resolved).2
  split
  · rfl
  · exact working

theorem follow_nil {entry next : Entry} (followed : tree.follow entry [] = .ok next) :
    entry = next := by
  cases entry with
  | file place => cases followed
  | directory place =>
      cases followed
      rfl

/-- A name below a location of a directory is looked up in that directory. -/
theorem resolve_below {location name : Text} {directory : Place} (isName : IsName name)
    (resolved : tree.resolve here location = .ok (.directory directory)) :
    tree.resolve here (below location name) = tree.follow (.directory directory) name := by
  obtain ⟨nonempty, hfold⟩ := resolve_eq_ok_iff.mp resolved
  obtain ⟨first, rest, hbelow, hlocation⟩ := Location.exists_splitOn_below location isName
  have hhead : (below location name).head? = location.head? := by
    unfold below
    split <;> exact List.head?_append_of_ne_nil _ nonempty
  have hfront : (first :: rest).foldlM tree.follow
      (.directory (if location.head? = some '/' then [] else here)) =
        .ok (.directory directory) := by
    rcases hlocation with hlocation | hlocation
    · rwa [hlocation] at hfold
    · rw [hlocation, ← List.cons_append, List.foldlM_append] at hfold
      obtain ⟨middle, hmiddle, hlast⟩ := exists_of_bind_eq_ok hfold
      obtain ⟨last, hnil, hpure⟩ := exists_of_bind_eq_ok hlast
      cases hpure
      rw [hmiddle, follow_nil hnil]
  rw [resolve, if_neg (Location.below_ne_nil location name nonempty), hbelow, hhead,
    ← List.cons_append, List.foldlM_append, hfront]
  cases hfollow : tree.follow (.directory directory) name with
  | error cause => simp [hfollow, bind, Except.bind]
  | ok next => simp [hfollow, bind, Except.bind, pure, Except.pure]

/-- The names from a directory to a file lead to that file. -/
theorem resolve_descend (proper : tree.IsProper) {location : Text} {directory : Place}
    (resolved : tree.resolve here location = .ok (.directory directory)) {names : Place}
    (file : tree.isFile (directory ++ names) = true) (nonempty : names ≠ []) :
    tree.resolve here (names.foldl below location) = .ok (.file (directory ++ names)) := by
  induction names generalizing location directory with
  | nil => contradiction
  | cons name rest ih =>
      have isName : IsName name := proper.isName_of_isFile file name (by simp)
      have hbelow := resolve_below isName resolved
      simp only [follow, isName.nonempty, isName.notHere, isName.notUp, decide_false, Bool.or_false,
        Bool.false_eq_true, if_false] at hbelow
      cases rest with
      | nil =>
          rw [if_pos file] at hbelow
          exact hbelow
      | cons next more =>
          have hsplit : directory ++ name :: next :: more = directory ++ [name] ++ next :: more := by
            simp
          rw [hsplit] at file ⊢
          have hdirectory := isDirectory_of_isFile file
          have hfile : ¬tree.isFile (directory ++ [name]) = true :=
            fun hfile => proper.not_isDirectory hfile hdirectory
          rw [if_neg hfile, if_pos hdirectory] at hbelow
          exact ih hbelow file (List.cons_ne_nil _ _)

/-! ## Following steps -/

/-- Go on from an entry by a step. -/
def take (tree : FileTree) (entry : Entry) : Step → Except FileError Entry
  | .root => .ok (.directory [])
  | .here => .ok entry
  | .up => tree.follow entry ['.', '.']
  | .name name => tree.follow entry name

theorem foldlM_inner {pieces : List Text} {entry next : Entry}
    (followed : pieces.foldlM tree.follow entry = .ok next) :
    (Location.inner pieces).foldlM tree.take entry = .ok next := by
  induction pieces generalizing entry with
  | nil => exact followed
  | cons piece rest ih =>
      obtain ⟨middle, hmiddle, hrest⟩ := exists_of_bind_eq_ok followed
      rw [Location.inner, List.filterMap_cons]
      split
      next hnone =>
        -- An empty piece or a point stays in a directory.
        have hstays : entry = middle := by
          split at hnone
          next hidle =>
            cases entry with
            | file place => cases hmiddle
            | directory place =>
                simp only [follow, hidle, if_true] at hmiddle
                cases hmiddle
                rfl
          next => split at hnone <;> cases hnone
        rw [hstays]
        exact ih hrest
      next step hstep =>
        have htake : tree.take entry step = .ok middle := by
          split at hstep
          · cases hstep
          · split at hstep
            next hup =>
              cases hstep
              rwa [hup] at hmiddle
            next =>
              cases hstep
              exact hmiddle
        rw [List.foldlM_cons, htake]
        exact ih hrest

/-- A location names what its steps lead to from the working directory. -/
theorem foldlM_steps {location : Text} {entry : Entry}
    (resolved : tree.resolve here location = .ok entry) :
    (steps location).foldlM tree.take (.directory here) = .ok entry := by
  obtain ⟨nonempty, hfold⟩ := resolve_eq_ok_iff.mp resolved
  obtain ⟨character, tail, rfl⟩ := List.exists_cons_of_ne_nil nonempty
  by_cases hslash : character = '/'
  · rw [hslash] at hfold ⊢
    have hsplit : Text.splitOn '/' ('/' :: tail) = [] :: Text.splitOn '/' tail :=
      Text.splitOn_append_cons '/' [] tail
    have hmore : (Text.splitOn '/' tail).isEmpty = false := by
      rw [List.isEmpty_eq_false_iff]
      exact Text.splitOn_ne_nil '/' tail
    rw [hsplit] at hfold
    rw [Location.steps_of_splitOn hsplit, hmore]
    exact foldlM_inner hfold
  · obtain ⟨piece, rest, htail⟩ := List.exists_cons_of_ne_nil (Text.splitOn_ne_nil '/' tail)
    have hsplit : Text.splitOn '/' (character :: tail) = (character :: piece) :: rest := by
      rw [Text.splitOn, if_neg (by simpa using hslash), htail]
    have hrelative : ¬(character :: tail).head? = some '/' := by simpa using hslash
    rw [if_neg hrelative, hsplit] at hfold
    rw [Location.steps_of_splitOn hsplit, Location.start, if_neg (List.cons_ne_nil _ _)]
    split
    next hpoint =>
      rw [hpoint] at hfold
      exact foldlM_inner hfold
    next =>
      rw [← Location.inner_append]
      exact foldlM_inner hfold

/-- What a location names is determined by its steps. -/
theorem eq_of_steps_eq {first second : Text} {entry other : Entry}
    (same : steps first = steps second) (hfirst : tree.resolve here first = .ok entry)
    (hsecond : tree.resolve here second = .ok other) : entry = other := by
  have hsteps := foldlM_steps hfirst
  rw [same, foldlM_steps hsecond] at hsteps
  exact (Except.ok.inj hsteps).symm

/-! ## The files of a location -/

/-- The places of the files that an entry stands for: its own, or those of the source
files that are found below it. -/
def reached (tree : FileTree) : Entry → List Place
  | .file place => [place]
  | .directory directory =>
      (tree.files.map (·.1)).filter fun place =>
        directory.isPrefixOf place && isSource place && tree.finds directory place

/-- The location of a place that is reached through a given one. -/
def locate (location : Text) (entry : Entry) (place : Place) : Text :=
  (place.drop entry.place.length).foldl below location

theorem expand_eq {location : Text} {entry : Entry}
    (resolved : tree.resolve here location = .ok entry) :
    tree.expand here location = .ok ((tree.reached entry).map (locate location entry)) := by
  rw [expand, resolved]
  cases entry with
  | file place => simp [reached, locate, Entry.place]
  | directory directory => rfl

/-- A reached place is a file below the entry. -/
theorem exists_of_mem_reached {entry : Entry} (holds : tree.Holds entry) {place : Place}
    (member : place ∈ tree.reached entry) :
    tree.isFile place = true ∧ ∃ names, place = entry.place ++ names := by
  cases entry with
  | file own =>
      cases List.mem_singleton.mp member
      exact ⟨holds, [], (List.append_nil _).symm⟩
  | directory directory =>
      obtain ⟨hfile, hfound⟩ := List.mem_filter.mp member
      simp only [Bool.and_eq_true, List.isPrefixOf_iff_prefix] at hfound
      obtain ⟨names, hnames⟩ := hfound.1.1
      exact ⟨isFile_iff.mpr hfile, names, hnames.symm⟩

theorem location_ne_nil {location : Text} {entry : Entry}
    (resolved : tree.resolve here location = .ok entry) : location ≠ [] :=
  (resolve_eq_ok_iff.mp resolved).1

theorem steps_locate (proper : tree.IsProper) {location : Text} {entry : Entry}
    (resolved : tree.resolve here location = .ok entry) {names : Place}
    (file : tree.isFile (entry.place ++ names) = true) :
    steps (locate location entry (entry.place ++ names)) = steps location ++ names.map .name := by
  rw [locate, List.drop_left]
  refine Location.steps_descend (location_ne_nil resolved) fun name member => ?_
  exact proper.isName_of_isFile file name (List.mem_append_right _ member)

/-- The location of a reached place names it. -/
theorem resolve_locate (proper : tree.IsProper) (working : tree.isDirectory here = true)
    {location : Text} {entry : Entry} (resolved : tree.resolve here location = .ok entry)
    {place : Place} (member : place ∈ tree.reached entry) :
    tree.resolve here (locate location entry place) = .ok (.file place) := by
  have holds := holds_resolve working resolved
  obtain ⟨file, names, rfl⟩ := exists_of_mem_reached holds member
  cases entry with
  | file own =>
      have hown := List.mem_singleton.mp member
      rw [hown, locate, Entry.place, List.drop_length]
      exact resolved
  | directory directory =>
      rw [locate, List.drop_left]
      refine resolve_descend proper resolved file ?_
      rintro rfl
      -- A directory is not among its own files.
      rw [List.append_nil] at file
      exact proper.not_isDirectory file holds

/-! ## All files -/

/-- The locations that a given one stands for. -/
def spread (tree : FileTree) (here : Place) (location : Text) : List Text :=
  match tree.resolve here location with
  | .ok entry => (tree.reached entry).map (locate location entry)
  | .error _ => []

theorem spread_eq {location : Text} {entry : Entry}
    (resolved : tree.resolve here location = .ok entry) :
    tree.spread here location = (tree.reached entry).map (locate location entry) := by
  rw [spread, resolved]

theorem mapM_eq_ok {ε α β : Type} {convert : α → Except ε β} {result : α → β} {values : List α}
    (converts : ∀ value ∈ values, convert value = .ok (result value)) :
    values.mapM convert = .ok (values.map result) := by
  induction values with
  | nil => rfl
  | cons value rest ih =>
      obtain ⟨hvalue, hrest⟩ := List.forall_mem_cons.mp converts
      rw [List.mapM_cons, hvalue, ih hrest]
      rfl

section Collecting

variable {locations : List Text}

theorem collect_eq
    (existing : ∀ location ∈ locations, ∃ entry, tree.resolve here location = .ok entry) :
    tree.collect here locations =
      .ok (Location.sorted (locations.flatMap (tree.spread here))) := by
  have hexpand : ∀ location ∈ locations,
      tree.expand here location = .ok (tree.spread here location) := by
    intro location member
    obtain ⟨entry, resolved⟩ := existing location member
    rw [expand_eq resolved, spread_eq resolved]
  rw [collect, mapM_eq_ok hexpand, List.flatMap]
  rfl

/-- A file is reached from one of several locations. -/
def Reaches (tree : FileTree) (here : Place) (locations : List Text) (place : Place) : Prop :=
  ∃ location ∈ locations, ∃ entry, tree.resolve here location = .ok entry ∧
    place ∈ tree.reached entry

/-- Where two locations share a file, the inner one is spelled as the outer one and the
names between them. -/
def SpelledAlike (tree : FileTree) (here : Place) (locations : List Text) : Prop :=
  ∀ first ∈ locations, ∀ second ∈ locations, ∀ outer inner,
    tree.resolve here first = .ok outer → tree.resolve here second = .ok inner →
    (∃ place ∈ tree.reached outer, place ∈ tree.reached inner) →
    ∀ names, inner.place = outer.place ++ names → steps second = steps first ++ names.map .name

/-- Every collected location stands for a file that is reached. -/
theorem exists_of_mem_spread
    (existing : ∀ location ∈ locations, ∃ entry, tree.resolve here location = .ok entry)
    {file : Text} (member : file ∈ locations.flatMap (tree.spread here)) :
    ∃ location ∈ locations, ∃ entry, tree.resolve here location = .ok entry ∧
      ∃ place ∈ tree.reached entry, file = locate location entry place := by
  obtain ⟨location, hlocation, hfile⟩ := List.mem_flatMap.mp member
  obtain ⟨entry, resolved⟩ := existing location hlocation
  rw [spread_eq resolved] at hfile
  obtain ⟨place, hplace, rfl⟩ := List.mem_map.mp hfile
  exact ⟨location, hlocation, entry, resolved, place, hplace, rfl⟩

/-- Every file that is reached is collected under one of the spellings with the steps
of the location through which it is reached. -/
theorem exists_mem_collected (proper : tree.IsProper) (working : tree.isDirectory here = true)
    (existing : ∀ location ∈ locations, ∃ entry, tree.resolve here location = .ok entry)
    {location : Text} (member : location ∈ locations) {entry : Entry}
    (resolved : tree.resolve here location = .ok entry) {place : Place}
    (hplace : place ∈ tree.reached entry) :
    ∃ file ∈ Location.sorted (locations.flatMap (tree.spread here)),
      steps file = steps (locate location entry place) ∧
      tree.resolve here file = .ok (.file place) := by
  have hfound : locate location entry place ∈ locations.flatMap (tree.spread here) := by
    refine List.mem_flatMap.mpr ⟨location, member, ?_⟩
    rw [spread_eq resolved]
    exact List.mem_map_of_mem hplace
  obtain ⟨file, hfile, same⟩ := Location.exists_mem_sorted hfound
  refine ⟨file, hfile, same, ?_⟩
  obtain ⟨other, -, otherEntry, hother, otherPlace, hreached, rfl⟩ :=
    exists_of_mem_spread existing (Location.sorted_subset _ hfile)
  have hnames := resolve_locate proper working hother hreached
  rw [hnames, eq_of_steps_eq same hnames (resolve_locate proper working resolved hplace)]

/-- The steps to a shared file agree if the inner location is spelled as the outer one
and the names between them, and only then. -/
theorem steps_locate_eq_iff (proper : tree.IsProper) (working : tree.isDirectory here = true)
    {first second : Text} {outer inner : Entry} (hfirst : tree.resolve here first = .ok outer)
    (hsecond : tree.resolve here second = .ok inner) {place : Place}
    (houter : place ∈ tree.reached outer) (hinner : place ∈ tree.reached inner) {names : Place}
    (between : inner.place = outer.place ++ names) :
    steps (locate first outer place) = steps (locate second inner place) ↔
      steps second = steps first ++ names.map .name := by
  obtain ⟨file, rest, rfl⟩ := exists_of_mem_reached (holds_resolve working hsecond) hinner
  have hsplit : inner.place ++ rest = outer.place ++ (names ++ rest) := by
    rw [between, List.append_assoc]
  have hsteps := steps_locate proper hsecond file
  rw [hsplit] at file
  rw [hsteps, hsplit, steps_locate proper hfirst file, List.map_append, ← List.append_assoc,
    List.append_left_inj]
  exact eq_comm

theorem SpelledAlike.steps_eq (alike : tree.SpelledAlike here locations)
    (proper : tree.IsProper) (working : tree.isDirectory here = true)
    {first second : Text} (hfirst : first ∈ locations) (hsecond : second ∈ locations)
    {entry other : Entry} (resolved : tree.resolve here first = .ok entry)
    (resolved' : tree.resolve here second = .ok other) {place : Place}
    (hplace : place ∈ tree.reached entry) (hplace' : place ∈ tree.reached other) :
    steps (locate first entry place) = steps (locate second other place) := by
  obtain ⟨-, names, hnames⟩ := exists_of_mem_reached (holds_resolve working resolved) hplace
  obtain ⟨-, names', hnames'⟩ := exists_of_mem_reached (holds_resolve working resolved') hplace'
  -- One of the two entries is inside the other, since both hold the place.
  rcases List.prefix_or_prefix_of_prefix ⟨names, hnames.symm⟩ ⟨names', hnames'.symm⟩ with
    ⟨between, hbetween⟩ | ⟨between, hbetween⟩
  · refine (steps_locate_eq_iff proper working resolved resolved' hplace hplace'
      hbetween.symm).mpr ?_
    exact alike first hfirst second hsecond entry other resolved resolved'
      ⟨place, hplace, hplace'⟩ between hbetween.symm
  · refine ((steps_locate_eq_iff proper working resolved' resolved hplace' hplace
      hbetween.symm).mpr ?_).symm
    exact alike second hsecond first hfirst other entry resolved' resolved
      ⟨place, hplace', hplace⟩ between hbetween.symm

instance : Std.Symm (Batch.Apart tree here) :=
  ⟨fun _ _ apart => apart.symm⟩

/-- If the locations exist, collecting succeeds, and what is collected names exactly the
files that are reached from them. No two of the collected locations name the same file
if and only if locations that share a file are spelled alike. -/
theorem collect_apart_iff (proper : tree.IsProper) (working : tree.isDirectory here = true)
    (existing : ∀ location ∈ locations, ∃ entry, tree.resolve here location = .ok entry) :
    ∃ files, tree.collect here locations = .ok files ∧
      (∀ file ∈ files, ∃ place, tree.resolve here file = .ok (.file place)) ∧
      (∀ place, tree.Reaches here locations place ↔
        ∃ file ∈ files, tree.resolve here file = .ok (.file place)) ∧
      (files.Pairwise (Batch.Apart tree here) ↔ tree.SpelledAlike here locations) := by
  refine ⟨_, collect_eq existing, fun file member => ?_, fun place => ⟨?_, ?_⟩, ?_, ?_⟩
  · obtain ⟨location, -, entry, resolved, place, hplace, rfl⟩ :=
      exists_of_mem_spread existing (Location.sorted_subset _ member)
    exact ⟨place, resolve_locate proper working resolved hplace⟩
  · rintro ⟨location, hlocation, entry, resolved, hplace⟩
    obtain ⟨file, hfile, -, hnames⟩ :=
      exists_mem_collected proper working existing hlocation resolved hplace
    exact ⟨file, hfile, hnames⟩
  · rintro ⟨file, hfile, hnames⟩
    obtain ⟨location, hlocation, entry, resolved, found, hfound, rfl⟩ :=
      exists_of_mem_spread existing (Location.sorted_subset _ hfile)
    rw [resolve_locate proper working resolved hfound] at hnames
    cases hnames
    exact ⟨location, hlocation, entry, resolved, hfound⟩
  · intro distinct first hfirst second hsecond outer inner houter hinner hshared names between
    obtain ⟨place, hplace, hplace'⟩ := hshared
    obtain ⟨file, hfile, hsteps, hnames⟩ :=
      exists_mem_collected proper working existing hfirst houter hplace
    obtain ⟨other, hother, hsteps', hnames'⟩ :=
      exists_mem_collected proper working existing hsecond hinner hplace'
    -- Both spellings are collected, so they are one.
    have hsame : file = other := by
      by_contra hdiffers
      exact distinct.forall hfile hother hdiffers place hnames hnames'
    rw [← steps_locate_eq_iff proper working houter hinner hplace hplace' between, ← hsteps,
      ← hsteps', hsame]
  · intro alike
    refine (Location.isSorted_sorted _).imp_of_mem ?_
    intro file other hfile hother before place hnames hnames'
    obtain ⟨first, hfirst, outer, houter, found, hfound, rfl⟩ :=
      exists_of_mem_spread existing (Location.sorted_subset _ hfile)
    obtain ⟨second, hsecond, inner, hinner, found', hfound', rfl⟩ :=
      exists_of_mem_spread existing (Location.sorted_subset _ hother)
    rw [resolve_locate proper working houter hfound] at hnames
    rw [resolve_locate proper working hinner hfound'] at hnames'
    cases hnames
    cases hnames'
    exact Location.ne_of_isBefore before
      (alike.steps_eq proper working hfirst hsecond houter hinner hfound hfound')

/-! ## Locations that are spelled alike -/

theorem place_take {entry next : Entry} {name : Text} (isName : IsName name)
    (taken : tree.take entry (.name name) = .ok next) : next.place = entry.place ++ [name] := by
  cases entry with
  | file place => cases taken
  | directory place =>
      simp only [take, follow, isName.nonempty, isName.notHere, isName.notUp, decide_false,
        Bool.or_false, Bool.false_eq_true, if_false] at taken
      split at taken
      · cases taken
        rfl
      · split at taken
        · cases taken
          rfl
        · cases taken

theorem place_foldlM_take {entry next : Entry} {names : List Text}
    (isName : ∀ name ∈ names, IsName name)
    (taken : (names.map Step.name).foldlM tree.take entry = .ok next) :
    next.place = entry.place ++ names := by
  induction names generalizing entry with
  | nil =>
      cases taken
      exact (List.append_nil _).symm
  | cons name rest ih =>
      obtain ⟨hname, hrest⟩ := List.forall_mem_cons.mp isName
      obtain ⟨middle, hmiddle, hlater⟩ := exists_of_bind_eq_ok taken
      rw [ih hrest hlater, place_take hname hmiddle, List.append_assoc]
      rfl

/-- Locations that go on from a common start by names only are spelled alike. -/
theorem spelledAlike_of_common (start : List Step)
    (common : ∀ location ∈ locations,
      ∃ names : List Text, steps location = start ++ names.map .name) :
    tree.SpelledAlike here locations := by
  have hplace {location : Text} {entry : Entry} {names : List Text}
      (spelled : steps location = start ++ names.map .name)
      (resolved : tree.resolve here location = .ok entry) :
      ∃ base, start.foldlM tree.take (.directory here) = .ok base ∧
        entry.place = base.place ++ names := by
    have hsteps := foldlM_steps resolved
    rw [spelled, List.foldlM_append] at hsteps
    obtain ⟨base, hbase, hnames⟩ := exists_of_bind_eq_ok hsteps
    refine ⟨base, hbase, place_foldlM_take (fun name member => ?_) hnames⟩
    have hstep : .name name ∈ steps location := by
      rw [spelled]
      exact List.mem_append_right _ (List.mem_map_of_mem member)
    exact Location.isName_of_mem_steps hstep
  rintro first hfirst second hsecond outer inner houter hinner - names hbetween
  obtain ⟨front, hfront⟩ := common first hfirst
  obtain ⟨whole, hwhole⟩ := common second hsecond
  obtain ⟨base, hbase, houterPlace⟩ := hplace hfront houter
  obtain ⟨other, hother, hinnerPlace⟩ := hplace hwhole hinner
  rw [hbase] at hother
  cases hother
  rw [hinnerPlace, houterPlace, List.append_assoc, List.append_right_inj] at hbetween
  rw [hwhole, hfront, hbetween, List.map_append, List.append_assoc]

end Collecting

/-- A file in a directory and one beside it. -/
def nestedTree : FileTree :=
  ⟨[(["a".toList, "x.go".toList], .text "package a\n".toList),
    (["b.go".toList], .text "package b\n".toList)], []⟩

/-- A directory, the file in it, and the other file. -/
def plainLocations : List Text :=
  ["a".toList, "a//x.go".toList, "b.go".toList]

theorem collect_apart_iff_plainLocations :
    nestedTree.IsProper ∧ nestedTree.isDirectory [] = true ∧
    (∀ location ∈ plainLocations, ∃ entry, nestedTree.resolve [] location = .ok entry) ∧
    nestedTree.collect [] plainLocations = .ok ["a/x.go".toList, "b.go".toList] ∧
    ["a/x.go".toList, "b.go".toList].Pairwise (Batch.Apart nestedTree []) := by
  have proper : nestedTree.IsProper := by decide
  have existing : ∀ location ∈ plainLocations,
      ∃ entry, nestedTree.resolve [] location = .ok entry := by
    simp only [plainLocations, List.forall_mem_cons]
    exact ⟨⟨_, rfl⟩, ⟨_, rfl⟩, ⟨_, rfl⟩, List.forall_mem_nil _⟩
  have alike : nestedTree.SpelledAlike [] plainLocations := by
    refine spelledAlike_of_common [] ?_
    simp only [plainLocations, List.forall_mem_cons]
    exact ⟨⟨["a".toList], rfl⟩, ⟨["a".toList, "x.go".toList], rfl⟩, ⟨["b.go".toList], rfl⟩,
      List.forall_mem_nil _⟩
  have hcollect : nestedTree.collect [] plainLocations =
      .ok ["a/x.go".toList, "b.go".toList] := rfl
  obtain ⟨files, hfiles, -, -, happart⟩ := collect_apart_iff proper rfl existing
  rw [hcollect] at hfiles
  cases hfiles
  exact ⟨proper, rfl, existing, hcollect, happart.mpr alike⟩

/-- A single file. -/
def singleTree : FileTree :=
  ⟨[(["x.go".toList], .text "package x\n".toList)], []⟩

/-- The working directory and the file in it. -/
def mixedLocations : List Text :=
  [".".toList, "x.go".toList]

/-- A file is collected twice, through the working directory and by its own name. -/
theorem collect_repeats_mixedLocations :
    singleTree.IsProper ∧ singleTree.isDirectory [] = true ∧
    (∀ location ∈ mixedLocations, ∃ entry, singleTree.resolve [] location = .ok entry) ∧
    singleTree.collect [] mixedLocations = .ok ["./x.go".toList, "x.go".toList] ∧
    ¬["./x.go".toList, "x.go".toList].Pairwise (Batch.Apart singleTree []) := by
  refine ⟨by decide, rfl, ?_, rfl, ?_⟩
  · simp only [mixedLocations, List.forall_mem_cons]
    exact ⟨⟨_, rfl⟩, ⟨_, rfl⟩, List.forall_mem_nil _⟩
  · intro distinct
    exact List.pairwise_pair.mp distinct ["x.go".toList] rfl rfl

end FileTree

end Deinstrument
