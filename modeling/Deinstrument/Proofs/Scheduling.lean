import Deinstrument.Batch
import Mathlib.Algebra.GroupWithZero.Nat
import Mathlib.Data.List.Basic
import Mathlib.Data.List.Pairwise
import Mathlib.Logic.Relation

/-!
# Schedules of a batch

A batch gives each file to a worker of its own. A worker reads its file, runs
the engine on what it has read, and writes the result if that is asked for and
the file changes; the workers take these steps in any order. As long as no two
workers have the same file, what a worker reads is what the file held before
the batch. All schedules therefore come to the same outcomes and to the same
files, and a batch that only checks tells whether one that writes would change
a file.
-/

namespace Deinstrument

/-! ## Writing files -/

namespace FileTree

/-- A tree in which a file holds another text. -/
def write (tree : FileTree) (place : Place) (text : Text) : FileTree :=
  { tree with
    files := tree.files.map fun file =>
      if file.1 = place then (file.1, .text text) else file }

/-- A tree in which several files hold other texts. -/
def writeAll (tree : FileTree) (updates : List (Place × Text)) : FileTree :=
  updates.foldl (fun written update => written.write update.1 update.2) tree

/-- The files and directories of two trees have the same names. -/
structure SameNames (tree other : FileTree) : Prop where
  files : tree.files.map (·.1) = other.files.map (·.1)
  directories : tree.directories = other.directories

theorem sameNames_write (tree : FileTree) (place : Place) (text : Text) :
    (tree.write place text).SameNames tree := by
  refine ⟨?_, rfl⟩
  rw [write, List.map_map]
  refine List.map_congr_left fun file _ => ?_
  simp only [Function.comp_apply]
  split <;> rfl

theorem lookup_write (files : List (Place × Contents)) (place : Place) (text : Text)
    (other : Place) :
    (files.map fun file =>
        if file.1 = place then (file.1, Contents.text text) else file).lookup other =
      if other = place then (files.lookup other).map fun _ => Contents.text text
      else files.lookup other := by
  induction files with
  | nil => simp
  | cons file rest ih =>
      obtain ⟨name, contents⟩ := file
      have hwritten : (if name = place then (name, Contents.text text) else (name, contents)) =
          (name, if name = place then Contents.text text else contents) := by
        split <;> rfl
      rw [List.map_cons, hwritten, List.lookup_cons, List.lookup_cons, ih]
      by_cases hname : other = name
      · subst hname
        by_cases hplace : other = place <;> simp [hplace]
      · simp [beq_false_of_ne hname]

/-- Writing a file changes what that file holds and no other file. -/
theorem contents?_write (tree : FileTree) (place : Place) (text : Text) (other : Place) :
    (tree.write place text).contents? other =
      if other = place then (tree.contents? other).map fun _ => Contents.text text
      else tree.contents? other :=
  lookup_write tree.files place text other

/-- A file to which nothing is to be written stays as it is. -/
theorem contents?_writeAll_of_not_mem {updates : List (Place × Text)} {place : Place}
    (absent : ∀ text, (place, text) ∉ updates) (tree : FileTree) :
    (tree.writeAll updates).contents? place = tree.contents? place := by
  induction updates generalizing tree with
  | nil => rfl
  | cons update rest ih =>
      have hdiffers : place ≠ update.1 := by
        rintro rfl
        exact absent update.2 List.mem_cons_self
      change ((tree.write update.1 update.2).writeAll rest).contents? place = _
      rw [ih fun text member => absent text (List.mem_cons_of_mem _ member), contents?_write,
        if_neg hdiffers]

/-- A file holds the text that was to be written to it, if only one was. -/
theorem contents?_writeAll_of_mem {updates : List (Place × Text)} {place : Place} {text : Text}
    (distinct : updates.Pairwise fun first second => first.1 ≠ second.1)
    (member : (place, text) ∈ updates) {tree : FileTree} {contents : Contents}
    (held : tree.contents? place = some contents) :
    (tree.writeAll updates).contents? place = some (.text text) := by
  induction updates generalizing tree with
  | nil => cases member
  | cons update rest ih =>
      obtain ⟨hothers, hrest⟩ := List.pairwise_cons.mp distinct
      change ((tree.write update.1 update.2).writeAll rest).contents? place = _
      rcases List.mem_cons.mp member with rfl | member
      · rw [contents?_writeAll_of_not_mem fun other member => hothers _ member rfl,
          contents?_write, if_pos rfl, held]
        rfl
      · refine ih hrest member ?_
        rw [contents?_write, if_neg (hothers _ member).symm, held]

namespace SameNames

variable {tree other third : FileTree}

theorem refl (tree : FileTree) : SameNames tree tree :=
  ⟨rfl, rfl⟩

theorem trans (first : tree.SameNames other) (second : other.SameNames third) :
    tree.SameNames third :=
  ⟨first.files.trans second.files, first.directories.trans second.directories⟩

theorem writeAll (tree : FileTree) (updates : List (Place × Text)) :
    (tree.writeAll updates).SameNames tree := by
  induction updates generalizing tree with
  | nil => exact refl tree
  | cons update rest ih => exact (ih _).trans (sameNames_write tree update.1 update.2)

theorem isFile (same : tree.SameNames other) (place : Place) :
    tree.isFile place = other.isFile place := by
  have held (files : List (Place × Contents)) :
      (files.lookup place).isSome = (files.map (·.1)).contains place := by
    induction files with
    | nil => rfl
    | cons file rest ih =>
        rw [List.lookup_cons, List.map_cons, List.contains_cons, ← ih]
        cases place == file.1 <;> rfl
  rw [FileTree.isFile, FileTree.isFile, contents?, contents?, held, held, same.files]

theorem isDirectory (same : tree.SameNames other) (place : Place) :
    tree.isDirectory place = other.isDirectory place := by
  have below (files : List (Place × Contents)) :
      (files.any fun file => place.isPrefixOf file.1 && place.length < file.1.length) =
        (files.map (·.1)).any fun name => place.isPrefixOf name && place.length < name.length := by
    rw [List.any_map]
    rfl
  rw [FileTree.isDirectory, FileTree.isDirectory, below, below, same.files, same.directories]

/-- Locations name the same in trees with the same names. -/
theorem resolve (same : tree.SameNames other) (here : Place) (location : Text) :
    tree.resolve here location = other.resolve here location := by
  have hfollow : tree.follow = other.follow := by
    funext entry piece
    cases entry with
    | file place => rfl
    | directory place =>
        simp only [follow, same.isFile, same.isDirectory]
  rw [FileTree.resolve, FileTree.resolve, hfollow]

/-- A location reads the same in trees with the same names if the file that it
names holds the same. -/
theorem read (same : tree.SameNames other) {here : Place} {location : Text}
    (held : ∀ place, other.resolve here location = .ok (.file place) →
      tree.contents? place = other.contents? place) :
    tree.read here location = other.read here location := by
  rw [FileTree.read, FileTree.read, same.resolve]
  split
  · rfl
  · rfl
  · rename_i place hplace
    rw [held place hplace]

end SameNames

end FileTree

namespace Batch

/-! ## Workers -/

/-- How far the worker of a file has come. -/
inductive Progress
  | waiting
  /-- The file has been read. -/
  | loaded (source : Except FileError Text)
  /-- The engine has been run. -/
  | computed (result : Except Failure Processed)
  /-- The result has been written where that was to be done. -/
  | done (result : Except Failure Processed)

/-- The worker of the file at a location. -/
structure Worker where
  location : Text
  progress : Progress

/-- The workers of a batch, and the files as they are by now. -/
structure Crew where
  tree : FileTree
  workers : List Worker

/-- The outcome of a worker that is done. -/
def Worker.outcome? (worker : Worker) : Option Outcome :=
  match worker.progress with
  | .done result => some ⟨worker.location, result⟩
  | _ => none

namespace Crew

/-- One worker for each location, before any of them has done something. -/
def start (tree : FileTree) (locations : List Text) : Crew :=
  ⟨tree, locations.map fun location => ⟨location, .waiting⟩⟩

def isDone (crew : Crew) : Bool :=
  crew.workers.all fun worker => worker.outcome?.isSome

/-- The outcomes of the workers that are done, in the order of the workers. -/
def outcomes (crew : Crew) : List Outcome :=
  crew.workers.filterMap Worker.outcome?

end Crew

/-- What the engine makes of a text. -/
def processText (engine : Engine) (location source : Text) : Except Failure Processed :=
  ((engine.run location source).mapError Failure.engine).map fun output =>
    ⟨output, output.source != source⟩

/-- What comes of a file that has been read. -/
def processRead (engine : Engine) (location : Text) :
    Except FileError Text → Except Failure Processed
  | .error cause => .error (.unreadable location cause)
  | .ok source => processText engine location source

theorem processText_eq_ok_iff {engine : Engine} {location source : Text}
    {processed : Processed} :
    processText engine location source = .ok processed ↔
      engine.run location source = .ok processed.output ∧
        processed.changed = (processed.output.source != source) := by
  obtain ⟨output, changed⟩ := processed
  rw [processText]
  generalize engine.run location source = result
  cases result with
  | error cause => simp [Except.map, Except.mapError]
  | ok other =>
      simp only [Except.mapError, Except.map, Except.ok.injEq, Processed.mk.injEq]
      constructor
      · rintro ⟨rfl, rfl⟩
        exact ⟨rfl, rfl⟩
      · rintro ⟨rfl, rfl⟩
        exact ⟨rfl, rfl⟩

theorem processFile_eq (engine : Engine) (tree : FileTree) (here : Place) (location : Text) :
    processFile engine tree here location =
      processRead engine location (tree.read here location) := by
  rw [processFile]
  cases tree.read here location with
  | error cause => rfl
  | ok source =>
      simp only [processRead, processText]
      cases engine.run location source <;> rfl

section Steps

variable (engine : Engine) (mode : Mode) (here : Place)

/-- One step of one of the workers. -/
inductive Step : Crew → Crew → Prop
  /-- A worker reads its file. -/
  | read (tree : FileTree) (front back : List Worker) (location : Text) :
      Step ⟨tree, front ++ ⟨location, .waiting⟩ :: back⟩
        ⟨tree, front ++ ⟨location, .loaded (tree.read here location)⟩ :: back⟩
  /-- A worker runs the engine on what it has read. -/
  | compute (tree : FileTree) (front back : List Worker) (location : Text)
      (source : Except FileError Text) :
      Step ⟨tree, front ++ ⟨location, .loaded source⟩ :: back⟩
        ⟨tree, front ++ ⟨location, .computed (processRead engine location source)⟩ :: back⟩
  /-- A worker writes its file if the mode asks for that and the file changes. -/
  | finish (tree : FileTree) (front back : List Worker) (location : Text)
      (result : Except Failure Processed) :
      Step ⟨tree, front ++ ⟨location, .computed result⟩ :: back⟩
        ⟨tree.writeAll (updates mode tree here [⟨location, result⟩]),
          front ++ ⟨location, .done result⟩ :: back⟩

/-- Any number of steps of the workers, in any order. -/
def Steps : Crew → Crew → Prop :=
  Relation.ReflTransGen (Step engine mode here)

end Steps

/-! ## What is read and written -/

section Updates

variable {engine : Engine} {mode : Mode} {tree : FileTree} {here : Place}

theorem read_eq_ok_iff {location : Text} {source : Text} :
    tree.read here location = .ok source ↔
      ∃ place, tree.resolve here location = .ok (.file place) ∧
        tree.contents? place = some (.text source) := by
  rw [FileTree.read]
  cases hresolve : tree.resolve here location with
  | error cause => simp
  | ok entry =>
      cases entry with
      | directory place => simp
      | file place =>
          simp only [Except.ok.injEq, Entry.file.injEq, exists_eq_left']
          cases hcontents : tree.contents? place with
          | none => simp
          | some contents => cases contents <;> simp

/-- A file has a result if it holds text for which the engine has a result, and
it changes if that result is another text. -/
theorem processFile_eq_ok_iff {location : Text} {processed : Processed} :
    processFile engine tree here location = .ok processed ↔
      ∃ place source, tree.resolve here location = .ok (.file place) ∧
        tree.contents? place = some (.text source) ∧
        engine.run location source = .ok processed.output ∧
        processed.changed = (processed.output.source != source) := by
  rw [processFile_eq]
  constructor
  · intro hprocessed
    cases hread : tree.read here location with
    | error cause =>
        rw [hread] at hprocessed
        cases hprocessed
    | ok source =>
        obtain ⟨place, hplace, hcontents⟩ := read_eq_ok_iff.mp hread
        rw [hread] at hprocessed
        exact ⟨place, source, hplace, hcontents, processText_eq_ok_iff.mp hprocessed⟩
  · rintro ⟨place, source, hplace, hcontents, hrun⟩
    rw [read_eq_ok_iff.mpr ⟨place, hplace, hcontents⟩]
    exact processText_eq_ok_iff.mpr hrun

theorem update?_eq_some_iff {outcome : Outcome} {place : Place} {text : Text} :
    update? tree here outcome = some (place, text) ↔
      tree.resolve here outcome.location = .ok (.file place) ∧
        ∃ processed, outcome.result = .ok processed ∧ processed.changed = true ∧
          processed.output.source = text := by
  obtain ⟨location, result⟩ := outcome
  rw [update?]
  cases hresolve : tree.resolve here location with
  | error cause => simp
  | ok entry =>
      cases entry with
      | directory other => simp
      | file other =>
          cases result with
          | error cause => simp
          | ok processed =>
              simp only [Option.ite_none_right_eq_some, Option.some.injEq, Prod.mk.injEq,
                Except.ok.injEq, Entry.file.injEq, exists_eq_left']
              exact and_left_comm

/-- The files that are written are those of the changed outcomes, and nothing is
written in another mode. -/
theorem mem_updates_iff {outcomes : List Outcome} {place : Place} {text : Text} :
    (place, text) ∈ updates mode tree here outcomes ↔
      mode = .write ∧ ∃ outcome ∈ outcomes, update? tree here outcome = some (place, text) := by
  rw [updates]
  split
  · rename_i hmode
    simp [hmode, List.mem_filterMap]
  · rename_i hmode
    simp [hmode]

theorem updates_append (front back : List Outcome) :
    updates mode tree here (front ++ back) =
      updates mode tree here front ++ updates mode tree here back := by
  simp only [updates]
  split <;> simp

/-- A file that is written held text before. -/
theorem held_of_mem_updates {location : Text} {result : Except Failure Processed} {place : Place}
    (text : Text) (computed : result = processFile engine tree here location)
    (member : (place, text) ∈ updates mode tree here [⟨location, result⟩]) :
    tree.resolve here location = .ok (.file place) ∧
      ∃ source, tree.contents? place = some (.text source) := by
  obtain ⟨-, outcome, houtcome, hupdate⟩ := mem_updates_iff.mp member
  rw [List.mem_singleton.mp houtcome] at hupdate
  obtain ⟨hplace, processed, hok, -⟩ := update?_eq_some_iff.mp hupdate
  obtain ⟨held, source, hheld, hsource, -⟩ := processFile_eq_ok_iff.mp (computed.symm.trans hok)
  cases hplace.symm.trans hheld
  exact ⟨hplace, source, hsource⟩

theorem updates_congr {other : FileTree} (same : tree.SameNames other)
    (outcomes : List Outcome) :
    updates mode tree here outcomes = updates mode other here outcomes := by
  have hupdate : update? tree here = update? other here := by
    funext outcome
    rw [update?, update?, same.resolve]
  rw [updates, updates, hupdate]

end Updates

/-! ## What the workers keep -/

/-- Two locations do not name the same file. -/
def Apart (tree : FileTree) (here : Place) (first second : Text) : Prop :=
  ∀ place, tree.resolve here first = .ok (.file place) →
    tree.resolve here second ≠ .ok (.file place)

theorem Apart.symm {tree : FileTree} {here : Place} {first second : Text}
    (apart : Apart tree here first second) : Apart tree here second first :=
  fun place hsecond hfirst => apart place hfirst hsecond

/-- Outcomes of different files are written to different files. -/
theorem pairwise_updates {mode : Mode} {tree : FileTree} {here : Place}
    {outcomes : List Outcome}
    (distinct : outcomes.Pairwise fun first second =>
      Apart tree here first.location second.location) :
    (updates mode tree here outcomes).Pairwise fun first second => first.1 ≠ second.1 := by
  rw [updates]
  split
  · refine distinct.filterMap _ fun first second apart update hfirst other hsecond hsame => ?_
    have hother := (update?_eq_some_iff.mp hsecond).1
    rw [← hsame] at hother
    exact apart update.1 (update?_eq_some_iff.mp hfirst).1 hother
  · exact .nil

/-- What a worker has come to is what its file held before the batch, and what
the engine makes of that. -/
def Worker.Follows (engine : Engine) (tree : FileTree) (here : Place) (worker : Worker) : Prop :=
  match worker.progress with
  | .waiting => True
  | .loaded source => source = tree.read here worker.location
  | .computed result => result = processFile engine tree here worker.location
  | .done result => result = processFile engine tree here worker.location

/-- The workers follow the files as they were before the batch, and the files
differ from those by what the workers that are done have written. -/
structure Crew.Follows (engine : Engine) (mode : Mode) (tree : FileTree) (here : Place)
    (locations : List Text) (crew : Crew) : Prop where
  locations_eq : crew.workers.map (·.location) = locations
  names : crew.tree.SameNames tree
  progress : ∀ worker ∈ crew.workers, worker.Follows engine tree here
  written : ∀ place text, (place, text) ∈ updates mode tree here crew.outcomes →
    crew.tree.contents? place = some (.text text)
  kept : ∀ place, (∀ text, (place, text) ∉ updates mode tree here crew.outcomes) →
    crew.tree.contents? place = tree.contents? place

namespace Crew

variable {engine : Engine} {mode : Mode} {tree : FileTree} {here : Place}
  {locations : List Text}

theorem outcomes_start (tree : FileTree) (locations : List Text) :
    (start tree locations).outcomes = [] := by
  simp [start, outcomes, Worker.outcome?]

theorem start_follows (engine : Engine) (mode : Mode) (tree : FileTree) (here : Place)
    (locations : List Text) :
    (start tree locations).Follows engine mode tree here locations where
  locations_eq := by simp [start, Function.comp_def]
  names := .refl tree
  progress := by
    intro worker member
    obtain ⟨location, -, rfl⟩ := List.mem_map.mp member
    trivial
  written := by
    intro place text member
    rw [outcomes_start, mem_updates_iff] at member
    obtain ⟨-, outcome, hnone, -⟩ := member
    cases hnone
  kept := fun _ _ => rfl

theorem outcomes_split (tree : FileTree) (front back : List Worker) (worker : Worker) :
    (Crew.mk tree (front ++ worker :: back)).outcomes =
      front.filterMap Worker.outcome? ++
        (worker.outcome?.toList ++ back.filterMap Worker.outcome?) := by
  simp only [outcomes, List.filterMap_append, List.filterMap_cons]
  cases worker.outcome? <;> rfl

/-- The outcome of a worker is about its location. -/
theorem location_of_mem_outcomes {workers : List Worker} {outcome : Outcome}
    (member : outcome ∈ workers.filterMap Worker.outcome?) :
    outcome.location ∈ workers.map (·.location) := by
  obtain ⟨worker, hworker, houtcome⟩ := List.mem_filterMap.mp member
  refine List.mem_map.mpr ⟨worker, hworker, ?_⟩
  rw [Worker.outcome?] at houtcome
  split at houtcome <;> cases houtcome
  rfl

/-- The other workers write no file that the location of a worker names. -/
theorem not_mem_updates {front back : List Worker} {worker : Worker} {place : Place}
    (distinct : ((front ++ worker :: back).map (·.location)).Pairwise (Apart tree here))
    (names : tree.resolve here worker.location = .ok (.file place)) (text : Text) :
    (place, text) ∉ updates mode tree here
      (front.filterMap Worker.outcome? ++ back.filterMap Worker.outcome?) := by
  intro member
  obtain ⟨-, outcome, houtcome, hupdate⟩ := mem_updates_iff.mp member
  have hother := (update?_eq_some_iff.mp hupdate).1
  rw [List.map_append, List.map_cons, List.pairwise_append, List.pairwise_cons] at distinct
  obtain ⟨-, ⟨hback, -⟩, hfront⟩ := distinct
  rcases List.mem_append.mp houtcome with houtcome | houtcome
  · exact hfront _ (location_of_mem_outcomes houtcome) _ List.mem_cons_self place hother names
  · exact hback _ (location_of_mem_outcomes houtcome) place names hother

/-- A worker that has not written yet still finds in its file what was there
before the batch. -/
theorem Follows.contents_of_not_done {current : FileTree} {front back : List Worker}
    {worker : Worker} {place : Place}
    (follows : Follows engine mode tree here locations ⟨current, front ++ worker :: back⟩)
    (distinct : locations.Pairwise (Apart tree here)) (waits : worker.outcome? = none)
    (names : tree.resolve here worker.location = .ok (.file place)) :
    current.contents? place = tree.contents? place := by
  refine follows.kept place fun text => ?_
  have hlocations := follows.locations_eq
  rw [← hlocations] at distinct
  rw [outcomes_split, waits]
  exact not_mem_updates distinct names text

/-- A step that finishes no worker only changes what its worker has come to. -/
theorem Follows.replace {current : FileTree} {front back : List Worker} {worker next : Worker}
    (follows : Follows engine mode tree here locations ⟨current, front ++ worker :: back⟩)
    (same : next.location = worker.location) (waits : worker.outcome? = none)
    (waits' : next.outcome? = none) (progress : next.Follows engine tree here) :
    Follows engine mode tree here locations ⟨current, front ++ next :: back⟩ := by
  have houtcomes : (Crew.mk current (front ++ next :: back)).outcomes =
      (Crew.mk current (front ++ worker :: back)).outcomes := by
    rw [outcomes_split, outcomes_split, waits, waits']
  refine ⟨?_, follows.names, ?_, ?_, ?_⟩
  · rw [← follows.locations_eq]
    simp [same]
  · have hall := follows.progress
    simp only [List.forall_mem_append, List.forall_mem_cons] at hall ⊢
    exact ⟨hall.1, progress, hall.2.2⟩
  · rw [houtcomes]
    exact follows.written
  · rw [houtcomes]
    exact follows.kept

/-- What is written in all is what one worker writes and what the others do. -/
theorem mem_updates_split (front back : List Worker) (worker next : Worker) {outcome : Outcome}
    (waits : worker.outcome? = none) (done : next.outcome? = some outcome)
    (current other : FileTree) {place : Place} {text : Text} :
    (place, text) ∈ updates mode tree here (Crew.mk current (front ++ next :: back)).outcomes ↔
      (place, text) ∈ updates mode tree here [outcome] ∨
        (place, text) ∈ updates mode tree here
          (Crew.mk other (front ++ worker :: back)).outcomes := by
  rw [outcomes_split, outcomes_split, waits, done]
  simp only [Option.toList_some, Option.toList_none, List.nil_append, updates_append,
    List.mem_append]
  exact or_left_comm

/-- A worker that is done has written its own file and no other. -/
theorem Follows.finish {current : FileTree} {front back : List Worker} {location : Text}
    {result : Except Failure Processed}
    (follows : Follows engine mode tree here locations
      ⟨current, front ++ ⟨location, .computed result⟩ :: back⟩)
    (distinct : locations.Pairwise (Apart tree here)) :
    Follows engine mode tree here locations
      ⟨current.writeAll (updates mode current here [⟨location, result⟩]),
        front ++ ⟨location, .done result⟩ :: back⟩ := by
  have hall := follows.progress
  simp only [List.forall_mem_append, List.forall_mem_cons] at hall
  have hresult : result = processFile engine tree here location := hall.2.1
  rw [updates_congr follows.names]
  refine ⟨?_, (FileTree.SameNames.writeAll _ _).trans follows.names, ?_, ?_, ?_⟩
  · rw [← follows.locations_eq]
    simp
  · simp only [List.forall_mem_append, List.forall_mem_cons]
    exact ⟨hall.1, hresult, hall.2.2⟩
  · intro place text member
    rw [mem_updates_split front back ⟨location, .computed result⟩ ⟨location, .done result⟩
      rfl rfl _ current] at member
    rcases member with member | member
    · -- The file is the one of this worker, and holds what it held before the batch.
      obtain ⟨hplace, source, hsource⟩ := held_of_mem_updates text hresult member
      refine FileTree.contents?_writeAll_of_mem (pairwise_updates (List.pairwise_singleton _ _))
        member ((follows.contents_of_not_done distinct rfl hplace).trans hsource)
    · -- The file is the one of another worker.
      have hothers (other : Text) : (place, other) ∉ updates mode tree here
          [⟨location, result⟩] := by
        intro written
        obtain ⟨hplace, -⟩ := held_of_mem_updates other hresult written
        rw [outcomes_split] at member
        exact not_mem_updates (follows.locations_eq ▸ distinct) hplace text member
      rw [FileTree.contents?_writeAll_of_not_mem hothers]
      exact follows.written place text member
  · intro place absent
    simp only [mem_updates_split front back ⟨location, .computed result⟩
      ⟨location, .done result⟩ rfl rfl _ current, not_or] at absent
    rw [FileTree.contents?_writeAll_of_not_mem fun text => (absent text).1]
    exact follows.kept place fun text => (absent text).2

/-- Every step of a worker keeps the workers following the files as they were. -/
theorem Follows.step {crew next : Crew} (follows : Follows engine mode tree here locations crew)
    (distinct : locations.Pairwise (Apart tree here)) (step : Step engine mode here crew next) :
    Follows engine mode tree here locations next := by
  cases step with
  | read current front back location =>
      refine follows.replace rfl rfl rfl ?_
      exact follows.names.read fun place names => follows.contents_of_not_done distinct rfl names
  | compute current front back location source =>
      refine follows.replace rfl rfl rfl ?_
      have hsource : source = tree.read here location :=
        follows.progress ⟨location, .loaded source⟩ (by simp)
      change processRead engine location source = processFile engine tree here location
      rw [processFile_eq, hsource]
  | finish current front back location result => exact follows.finish distinct

/-- And so do any number of steps. -/
theorem Follows.steps {crew next : Crew} (follows : Follows engine mode tree here locations crew)
    (distinct : locations.Pairwise (Apart tree here)) (steps : Steps engine mode here crew next) :
    Follows engine mode tree here locations next := by
  induction steps with
  | refl => exact follows
  | tail _ step ih => exact ih.step distinct step

/-! ## Schedules to the end -/

/-- The number of steps that a worker has before it. -/
def stepsOf (worker : Worker) : Nat :=
  match worker.progress with
  | .waiting => 3
  | .loaded _ => 2
  | .computed _ => 1
  | .done _ => 0

def stepsLeft (crew : Crew) : Nat :=
  (crew.workers.map stepsOf).sum

/-- Workers that are not all done have a step, and then fewer steps before them. -/
theorem exists_step (engine : Engine) (mode : Mode) (here : Place) {crew : Crew}
    (unfinished : crew.isDone = false) :
    ∃ next, Step engine mode here crew next ∧ next.stepsLeft < crew.stepsLeft := by
  obtain ⟨current, workers⟩ := crew
  obtain ⟨worker, member, hworker⟩ := List.all_eq_false.mp unfinished
  obtain ⟨front, back, rfl⟩ := List.append_of_mem member
  obtain ⟨location, progress⟩ := worker
  cases progress with
  | waiting =>
      refine ⟨_, .read current front back location, ?_⟩
      simp [stepsLeft, stepsOf]
  | loaded source =>
      refine ⟨_, .compute current front back location source, ?_⟩
      simp [stepsLeft, stepsOf]
  | computed result =>
      refine ⟨_, .finish current front back location result, ?_⟩
      simp [stepsLeft, stepsOf]
  | done result => exact absurd rfl hworker

/-- From wherever the workers are, they can come to their end. -/
theorem exists_done (engine : Engine) (mode : Mode) (here : Place) (crew : Crew) :
    ∃ final, Steps engine mode here crew final ∧ final.isDone = true := by
  induction hleft : crew.stepsLeft using Nat.strongRecOn generalizing crew with
  | ind left ih =>
      cases hdone : crew.isDone with
      | true => exact ⟨crew, .refl, hdone⟩
      | false =>
          obtain ⟨next, hstep, hless⟩ := exists_step engine mode here hdone
          obtain ⟨final, hsteps, hfinal⟩ := ih next.stepsLeft (hleft ▸ hless) next rfl
          exact ⟨final, .head hstep hsteps, hfinal⟩

/-- Workers that do not write leave all files as they are. -/
theorem tree_of_steps {crew next : Crew} (reads : mode ≠ .write)
    (steps : Steps engine mode here crew next) : next.tree = crew.tree := by
  induction steps with
  | refl => rfl
  | tail _ step ih =>
      rw [← ih]
      cases step with
      | read => rfl
      | compute => rfl
      | finish => simp [updates, reads, FileTree.writeAll]

/-- Workers that are all done have come to the outcomes of the batch, in the
order of the locations. -/
theorem Follows.outcomes_eq {crew : Crew}
    (follows : Follows engine mode tree here locations crew) (done : crew.isDone = true) :
    crew.outcomes = process engine tree here locations := by
  have heach : ∀ worker ∈ crew.workers, worker.outcome? =
      some ⟨worker.location, processFile engine tree here worker.location⟩ := by
    intro worker member
    have hdone := List.all_eq_true.mp done worker member
    have hfollows := follows.progress worker member
    obtain ⟨location, progress⟩ := worker
    cases progress with
    | done result => exact congrArg (fun result => some (Outcome.mk location result)) hfollows
    | waiting => cases hdone
    | loaded source => cases hdone
    | computed result => cases hdone
  rw [Crew.outcomes, List.filterMap_eq_map_iff_forall_eq_some.mpr heach, process,
    ← follows.locations_eq, List.map_map]
  rfl

/-- At the end the files are those that writing all results at once gives. -/
theorem Follows.contents_eq {crew : Crew}
    (follows : Follows engine mode tree here locations crew)
    (distinct : locations.Pairwise (Apart tree here)) (done : crew.isDone = true) (place : Place) :
    crew.tree.contents? place =
      (tree.writeAll (updates mode tree here crew.outcomes)).contents? place := by
  by_cases hwritten : ∃ text, (place, text) ∈ updates mode tree here crew.outcomes
  · obtain ⟨text, member⟩ := hwritten
    rw [follows.written place text member]
    rw [follows.outcomes_eq done] at member ⊢
    obtain ⟨hmode, outcome, houtcome, hupdate⟩ := mem_updates_iff.mp member
    obtain ⟨location, -, rfl⟩ := List.mem_map.mp houtcome
    obtain ⟨-, source, hsource⟩ := held_of_mem_updates text rfl
      (mem_updates_iff.mpr ⟨hmode, _, List.mem_singleton_self _, hupdate⟩)
    exact (FileTree.contents?_writeAll_of_mem
      (pairwise_updates (List.pairwise_map.mpr distinct)) member hsource).symm
  · push Not at hwritten
    rw [follows.kept place hwritten, FileTree.contents?_writeAll_of_not_mem hwritten]

end Crew

/-! ## What all schedules have in common -/

/-- What writing has made of the files: those of the outcomes that changed hold
what the engine returns for what they held before, and all others are as they
were, those of failed outcomes among them. -/
structure Rewritten (engine : Engine) (tree : FileTree) (here : Place)
    (outcomes : List Outcome) (final : FileTree) : Prop where
  changed : ∀ outcome ∈ outcomes, outcome.isChanged = true →
    ∃ place text output, tree.resolve here outcome.location = .ok (.file place) ∧
      tree.contents? place = some (.text text) ∧
      engine.run outcome.location text = .ok output ∧ output.source ≠ text ∧
      final.contents? place = some (.text output.source)
  unchanged : ∀ outcome ∈ outcomes, outcome.isChanged = false ∨ outcome.isError = true →
    ∀ place, tree.resolve here outcome.location = .ok (.file place) →
      final.contents? place = tree.contents? place
  others : ∀ place,
    (∀ outcome ∈ outcomes, tree.resolve here outcome.location ≠ .ok (.file place)) →
      final.contents? place = tree.contents? place

section Rewritten

variable {engine : Engine} {tree : FileTree} {here : Place} {locations : List Text}

/-- An outcome changes if the engine returns another text for a file. -/
theorem isChanged_processFile_iff {location : Text} :
    (Outcome.mk location (processFile engine tree here location)).isChanged = true ↔
      ∃ place source output, tree.resolve here location = .ok (.file place) ∧
        tree.contents? place = some (.text source) ∧
        engine.run location source = .ok output ∧ output.source ≠ source := by
  constructor
  · intro hchanged
    cases hprocessed : processFile engine tree here location with
    | error cause =>
        rw [hprocessed] at hchanged
        cases hchanged
    | ok processed =>
        rw [hprocessed] at hchanged
        obtain ⟨place, source, hplace, hsource, hrun, hflag⟩ := processFile_eq_ok_iff.mp hprocessed
        exact ⟨place, source, processed.output, hplace, hsource, hrun,
          bne_iff_ne.mp (hflag.symm.trans hchanged)⟩
  · rintro ⟨place, source, output, hplace, hsource, hrun, hdiffers⟩
    have hprocessed : processFile engine tree here location = .ok ⟨output, true⟩ :=
      processFile_eq_ok_iff.mpr
        ⟨place, source, hplace, hsource, hrun, (bne_iff_ne.mpr hdiffers).symm⟩
    rw [hprocessed]
    rfl

theorem isChanged_of_update? {outcome : Outcome} {update : Place × Text}
    (updates : update? tree here outcome = some update) : outcome.isChanged = true := by
  obtain ⟨-, processed, hok, hchanged, -⟩ := update?_eq_some_iff.mp updates
  rw [Outcome.isChanged, hok]
  exact hchanged

theorem isChanged_eq_false_of_isError {outcome : Outcome} (failed : outcome.isError = true) :
    outcome.isChanged = false := by
  obtain ⟨location, result⟩ := outcome
  cases result with
  | error cause => rfl
  | ok processed => cases failed

/-- No two outcomes of a batch are about the same file. -/
theorem process_apart (engine : Engine) (distinct : locations.Pairwise (Apart tree here)) :
    (process engine tree here locations).Pairwise fun first second =>
      Apart tree here first.location second.location :=
  List.pairwise_map.mpr distinct

/-- A batch that writes rewrites the files of the outcomes that changed. -/
theorem rewritten_of_contents {final : FileTree}
    (distinct : locations.Pairwise (Apart tree here))
    (written : ∀ place text,
      (place, text) ∈ updates .write tree here (process engine tree here locations) →
        final.contents? place = some (.text text))
    (kept : ∀ place,
      (∀ text, (place, text) ∉ updates .write tree here (process engine tree here locations)) →
        final.contents? place = tree.contents? place) :
    Rewritten engine tree here (process engine tree here locations) final where
  changed := by
    intro outcome member hchanged
    obtain ⟨location, hlocation, rfl⟩ := List.mem_map.mp member
    obtain ⟨place, source, output, hplace, hsource, hrun, hdiffers⟩ :=
      isChanged_processFile_iff.mp hchanged
    have hprocessed : processFile engine tree here location = .ok ⟨output, true⟩ :=
      processFile_eq_ok_iff.mpr
        ⟨place, source, hplace, hsource, hrun, (bne_iff_ne.mpr hdiffers).symm⟩
    refine ⟨place, source, output, hplace, hsource, hrun, hdiffers, ?_⟩
    refine written place output.source (mem_updates_iff.mpr ⟨rfl, _, member, ?_⟩)
    exact update?_eq_some_iff.mpr ⟨hplace, _, hprocessed, rfl, rfl⟩
  unchanged := by
    intro outcome member hflag place hplace
    have hflag : outcome.isChanged = false := hflag.elim id isChanged_eq_false_of_isError
    refine kept place fun text written => ?_
    obtain ⟨-, other, hother, hupdate⟩ := mem_updates_iff.mp written
    have hdiffers : outcome ≠ other := by
      rintro rfl
      exact Bool.false_ne_true (hflag.symm.trans (isChanged_of_update? hupdate))
    have hsymm : Std.Symm fun first second : Outcome =>
        Apart tree here first.location second.location :=
      ⟨fun _ _ apart => apart.symm⟩
    exact (process_apart engine distinct).forall member hother hdiffers place hplace
      (update?_eq_some_iff.mp hupdate).1
  others := by
    intro place hnone
    refine kept place fun text written => ?_
    obtain ⟨-, outcome, member, hupdate⟩ := mem_updates_iff.mp written
    exact hnone outcome member (update?_eq_some_iff.mp hupdate).1

/-- Files are altered exactly if there is an outcome that changed. -/
theorem Rewritten.altered_iff {outcomes : List Outcome} {final : FileTree}
    (rewritten : Rewritten engine tree here outcomes final) :
    (∃ place, final.contents? place ≠ tree.contents? place) ↔
      ∃ outcome ∈ outcomes, outcome.isChanged = true := by
  constructor
  · rintro ⟨place, haltered⟩
    by_contra! hnone
    refine haltered ?_
    by_cases hnamed : ∃ outcome ∈ outcomes, tree.resolve here outcome.location = .ok (.file place)
    · obtain ⟨outcome, member, hplace⟩ := hnamed
      exact rewritten.unchanged outcome member
        (.inl (Bool.eq_false_iff.mpr (hnone outcome member))) place hplace
    · push Not at hnamed
      exact rewritten.others place hnamed
  · rintro ⟨outcome, member, hchanged⟩
    obtain ⟨place, source, output, -, hsource, -, hdiffers, hfinal⟩ :=
      rewritten.changed outcome member hchanged
    refine ⟨place, fun hsame => hdiffers ?_⟩
    rw [hfinal, hsource] at hsame
    cases hsame
    rfl

/-- A batch that checks ends with 1 exactly if no file fails and one changes. -/
theorem exitCode_check_eq_one_iff (outcomes : List Outcome) :
    exitCode .check (summary outcomes) = 1 ↔
      (∀ outcome ∈ outcomes, outcome.isError = false) ∧
        ∃ outcome ∈ outcomes, outcome.isChanged = true := by
  have herrors : (∀ outcome ∈ outcomes, outcome.isError = false) ↔
      ¬ 0 < (summary outcomes).errors := by
    rw [summary, List.countP_pos_iff]
    push Not
    simp only [Bool.not_eq_true]
  have hchanged : (∃ outcome ∈ outcomes, outcome.isChanged = true) ↔
      0 < (summary outcomes).changed :=
    List.countP_pos_iff.symm
  rw [herrors, hchanged, exitCode]
  by_cases hfailed : 0 < (summary outcomes).errors
  · simp [hfailed]
  · by_cases hchanges : 0 < (summary outcomes).changed <;> simp [hfailed, hchanges]

end Rewritten

/-- Whatever the schedule, a batch over different files comes to its end, to the
same outcomes in the order of the locations, and to the same files: only a batch
that writes touches files, and then those whose outcomes changed. One that
checks ends with 1 exactly if no file fails and one that writes would alter a
file. -/
theorem schedules_agree (engine : Engine) (tree : FileTree) (here : Place)
    (locations : List Text) (distinct : locations.Pairwise (Apart tree here)) :
    (∀ mode crew, Steps engine mode here (.start tree locations) crew →
      (∃ final, Steps engine mode here crew final ∧ final.isDone = true) ∧
      (mode ≠ .write → crew.tree = tree) ∧
      (crew.isDone = true →
        crew.outcomes = process engine tree here locations ∧
        (∀ place, crew.tree.contents? place =
          (tree.writeAll (updates mode tree here crew.outcomes)).contents? place) ∧
        (mode = .write → Rewritten engine tree here crew.outcomes crew.tree))) ∧
    ∀ checked written,
      Steps engine .check here (.start tree locations) checked → checked.isDone = true →
      Steps engine .write here (.start tree locations) written → written.isDone = true →
      (exitCode .check (summary checked.outcomes) = 1 ↔
        (∀ outcome ∈ checked.outcomes, outcome.isError = false) ∧
          ∃ place, written.tree.contents? place ≠ tree.contents? place) := by
  have hfollows (mode : Mode) (crew : Crew)
      (steps : Steps engine mode here (.start tree locations) crew) :
      crew.Follows engine mode tree here locations :=
    (Crew.start_follows engine mode tree here locations).steps distinct steps
  have hrewritten (crew : Crew) (steps : Steps engine .write here (.start tree locations) crew)
      (done : crew.isDone = true) : Rewritten engine tree here crew.outcomes crew.tree := by
    have follows := hfollows .write crew steps
    rw [follows.outcomes_eq done]
    refine rewritten_of_contents distinct ?_ ?_
    · rw [← follows.outcomes_eq done]
      exact follows.written
    · rw [← follows.outcomes_eq done]
      exact follows.kept
  constructor
  · intro mode crew steps
    refine ⟨Crew.exists_done engine mode here crew, fun reads => Crew.tree_of_steps reads steps,
      fun done => ?_⟩
    have follows := hfollows mode crew steps
    refine ⟨follows.outcomes_eq done, follows.contents_eq distinct done, ?_⟩
    rintro rfl
    exact hrewritten crew steps done
  · intro checked written hchecked hcheckedDone hwritten hwrittenDone
    have hsame : checked.outcomes = written.outcomes :=
      ((hfollows .check checked hchecked).outcomes_eq hcheckedDone).trans
        ((hfollows .write written hwritten).outcomes_eq hwrittenDone).symm
    rw [exitCode_check_eq_one_iff, (hrewritten written hwritten hwrittenDone).altered_iff, hsame]

/-- A file with a region to remove beside one without. -/
def twoFiles : FileTree :=
  ⟨[(["a.go".toList],
      .text "package p\n\nfunc f() \x7b\n\t//dd:startwrap\n\ta() //dd:endwrap\n\x7d\n".toList),
    (["b.go".toList], .text "package p\n".toList)], []⟩

theorem schedules_agree_twoFiles :
    ["a.go".toList, "b.go".toList].Pairwise (Apart twoFiles []) ∧
    ∃ checked written,
      Steps (.ofConfig .standard) .check [] (.start twoFiles ["a.go".toList, "b.go".toList])
        checked ∧ checked.isDone = true ∧
      Steps (.ofConfig .standard) .write [] (.start twoFiles ["a.go".toList, "b.go".toList])
        written ∧ written.isDone = true ∧
      exitCode .check (summary checked.outcomes) = 1 ∧
      ∃ place, written.tree.contents? place ≠ twoFiles.contents? place := by
  have distinct : ["a.go".toList, "b.go".toList].Pairwise (Apart twoFiles []) := by
    refine List.pairwise_pair.mpr fun place hfirst hsecond => ?_
    have first : twoFiles.resolve [] "a.go".toList = .ok (.file ["a.go".toList]) := rfl
    have second : twoFiles.resolve [] "b.go".toList = .ok (.file ["b.go".toList]) := rfl
    rw [first] at hfirst
    rw [second] at hsecond
    cases hfirst
    cases hsecond
  obtain ⟨checked, hchecked, hcheckedDone⟩ := Crew.exists_done (.ofConfig .standard) .check []
    (.start twoFiles ["a.go".toList, "b.go".toList])
  obtain ⟨written, hwritten, hwrittenDone⟩ := Crew.exists_done (.ofConfig .standard) .write []
    (.start twoFiles ["a.go".toList, "b.go".toList])
  obtain ⟨hagree, hpredicts⟩ := schedules_agree (.ofConfig .standard) twoFiles []
    ["a.go".toList, "b.go".toList] distinct
  have hcode : exitCode .check (summary checked.outcomes) = 1 := by
    rw [((hagree .check checked hchecked).2.2 hcheckedDone).1]
    decide +kernel
  exact ⟨distinct, checked, written, hchecked, hcheckedDone, hwritten, hwrittenDone, hcode,
    ((hpredicts checked written hchecked hcheckedDone hwritten hwrittenDone).mp hcode).2⟩

end Batch

end Deinstrument
