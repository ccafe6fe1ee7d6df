import Deinstrument.Proofs.Rescan

/-!
# Inserting regions and removing them

A block with inserted regions is a sequence of pieces: its own statements, and
regions with the comments in front of them. Leaving the regions out gives the
block as it was before, with these comments on whatever follows. Removing the
regions of the block with all pieces gives the same block back, provided that
there are no other region markers and that no blank lines stand in front of the
inserted ones.
-/

namespace Deinstrument

variable {Action : Type}

namespace Stmt

/-- Whether a region marker stands above or behind a statement. -/
def hasRegionMarker (stmt : Stmt Action) : Bool :=
  stmt.hasBefore .regionStart || stmt.hasBefore .regionEnd || stmt.hasAfter .regionStart ||
    stmt.hasAfter .regionEnd

/-- Put a comment behind the last of several statements. -/
def addBehind (entry : Text) : List (Stmt Action) → List (Stmt Action)
  | [] => []
  | [last] => [{ last with after := last.after ++ [entry] }]
  | first :: rest => first :: addBehind entry rest

end Stmt

namespace Region

/-- A region to insert into a block. Its markers have no blank line in front,
its statements carry no region markers, and no comment behind them stands on a
line of its own. -/
structure Inserted (Action : Type) where
  start : Text
  first : Stmt Action
  more : List (Stmt Action)
  stop : Text
  /-- Whether the end marker stands behind the last statement, and not on the
  line below it. -/
  behind : Bool
  starts : Marker.classify start = some .regionStart
  stops : Marker.classify stop = some .regionEnd
  start_tight : Stmt.blankLines start = 0
  stop_tight : behind = false → Stmt.blankLines stop = 0
  unmarked : ∀ stmt ∈ first :: more, stmt.hasRegionMarker = false
  inline : ∀ stmt ∈ first :: more, ∀ entry ∈ stmt.after, Cut.isOwnLine entry = false

/-- The statements of a region with its end marker, in front of later ones. An
end marker on a line of its own goes above the next statement; if there is none
it stays behind the last one. -/
def Inserted.inFrontOf (inserted : Inserted Action) (later : List (Stmt Action)) :
    List (Stmt Action) :=
  if inserted.behind || later.isEmpty then
    Stmt.addBehind inserted.stop (inserted.first :: inserted.more) ++ later
  else inserted.first :: inserted.more ++ later.modifyHead (Stmt.attach [inserted.stop])

/-- A piece of a block: a statement of its own, or an inserted region below the
comments that stand in front of the place of insertion. -/
inductive Piece (Action : Type)
  | own (stmt : Stmt Action)
  | region (above : List Text) (inserted : Inserted Action)

namespace Piece

/-- No region markers but the ones of an inserted region itself. -/
def IsUnmarked : Piece Action → Prop
  | .own stmt => stmt.hasRegionMarker = false
  | .region above _ => .regionStart ∉ Marker.among above ∧ .regionEnd ∉ Marker.among above

/-- The statements of a block with its inserted regions. -/
def withRegions : List (Piece Action) → List (Stmt Action)
  | [] => []
  | .own stmt :: rest => stmt :: withRegions rest
  | .region above inserted :: rest =>
      (inserted.inFrontOf (withRegions rest)).modifyHead (Stmt.attach (above ++ [inserted.start]))

/-- The block without its inserted regions. -/
def withoutRegions (opening closing : Text) : List (Piece Action) → Block Action
  | [] => ⟨opening, [], closing⟩
  | .own stmt :: rest =>
      let behind := withoutRegions opening closing rest
      { behind with stmts := stmt :: behind.stmts }
  | .region above _ :: rest => (withoutRegions opening closing rest).addAbove above

/-- A statement in pieces: the regions inserted above it, each below some of the
comments that are left there. -/
def divide (stmt : Stmt Action) : List (Nat × Inserted Action) → List (Piece Action)
  | [] => [.own stmt]
  | (count, inserted) :: rest =>
      .region (stmt.before.take count) inserted ::
        divide { stmt with before := stmt.before.drop count } rest

/-- The inserted regions, in order. -/
def regions : List (Piece Action) → List (List (Stmt Action))
  | [] => []
  | .own _ :: rest => regions rest
  | .region _ inserted :: rest => (inserted.first :: inserted.more) :: regions rest

end Piece

/-- A statement of a block and the regions to insert above it. Each comes with
the number of comments between the region in front of it and itself. -/
structure Site (Action : Type) where
  stmt : Stmt Action
  regions : List (Nat × Inserted Action)

/-- The pieces of a block with regions above its statements and behind the last
one. -/
def pieces (sites : List (Site Action)) (last : List (Inserted Action)) : List (Piece Action) :=
  sites.flatMap (fun site => Piece.divide site.stmt site.regions) ++ last.map (.region [])

/-- Insert regions into a block. -/
def insert (opening closing : Text) (sites : List (Site Action))
    (last : List (Inserted Action)) : Block Action :=
  ⟨opening, Piece.withRegions (pieces sites last), closing⟩

end Region

/-! ## Markers without blank lines -/

namespace Stmt

@[simp]
theorem carry_zero (text : Text) : carry 0 text = text := by
  simp [carry]

/-- Dropping comments that have no blank lines in front changes no other. -/
theorem dropEntries_eq_filter {drops : Text → Bool} {entries : List Text}
    (tight : ∀ entry ∈ entries, drops (Comment.body entry) = true → blankLines entry = 0)
    (space : Text) :
    (dropEntries drops 0 entries space).1 =
      (entries.filter fun entry => !drops (Comment.body entry)) ∧
    (dropEntries drops 0 entries space).2.1 = space := by
  induction entries with
  | nil => exact ⟨rfl, carry_zero space⟩
  | cons first rest ih =>
      rw [List.forall_mem_cons] at tight
      obtain ⟨hentries, hspace⟩ := ih tight.2
      by_cases hdrops : drops (Comment.body first) = true
      · rw [dropEntries_cons_drop hdrops, List.filter_cons_of_neg (by simp [hdrops]), carry_zero,
          tight.1 hdrops]
        exact ⟨hentries, hspace⟩
      · rw [dropEntries_cons_keep hdrops, List.filter_cons_of_pos (by simp [hdrops]), carry_zero]
        exact ⟨congrArg (first :: ·) hentries, hspace⟩

/-- A marker that is put above a statement can be dropped again. -/
theorem stripBefore_attach {stmt : Stmt Action} {marker : Marker} {entry : Text}
    (kind : Marker.classify entry = some marker) (tight : blankLines entry = 0)
    (absent : stmt.hasBefore marker = false) :
    ((stmt.attach [entry]).stripBefore marker).1 = stmt := by
  have hon := Marker.classify_eq_some_iff.mp kind
  have habsent : ∀ other ∈ stmt.before, marker.isOn (Comment.body other) = false := by
    simpa [hasBefore] using absent
  have htight : ∀ other ∈ entry :: stmt.before,
      marker.isOn (Comment.body other) = true → blankLines other = 0 := by
    rw [List.forall_mem_cons]
    refine ⟨fun _ => tight, fun other member hother => ?_⟩
    rw [habsent other member] at hother
    cases hother
  obtain ⟨hentries, hspace⟩ := dropEntries_eq_filter htight stmt.space
  have hkept : (stmt.before.filter fun other => !marker.isOn (Comment.body other)) =
      stmt.before := by
    rw [List.filter_eq_self]
    intro other member
    rw [habsent other member, Bool.not_false]
  rw [List.filter_cons_of_neg (by simp [hon]), hkept] at hentries
  simp only [stripBefore, dropBefore, attach, List.singleton_append, hentries, hspace]

/-- A marker that is put behind a statement can be dropped again. -/
theorem stripAfter_append {stmt : Stmt Action} {marker : Marker} {entry : Text}
    (kind : Marker.classify entry = some marker) (absent : stmt.hasAfter marker = false) :
    (stripAfter { stmt with after := stmt.after ++ [entry] } marker).1 = stmt := by
  have hon := Marker.classify_eq_some_iff.mp kind
  have hkept : (stmt.after.filter fun other => !marker.isOn (Comment.body other)) =
      stmt.after := by
    rw [List.filter_eq_self]
    intro other member
    simpa [hasAfter] using List.any_eq_false.mp absent other member
  simp [stripAfter, dropAfter, hkept, hon]

/-- What the absence of region markers means for each kind and place. -/
theorem hasRegionMarker_eq_false_iff {stmt : Stmt Action} :
    stmt.hasRegionMarker = false ↔
      stmt.hasBefore .regionStart = false ∧ stmt.hasBefore .regionEnd = false ∧
        stmt.hasAfter .regionStart = false ∧ stmt.hasAfter .regionEnd = false := by
  simp only [hasRegionMarker, Bool.or_eq_false_iff, and_assoc]

end Stmt

/-! ## The end of an inserted region -/

namespace Region

/-- An end marker behind the last of several statements takes all of them. -/
theorem closeAmong_addBehind {stop : Text} (stops : Marker.classify stop = some .regionEnd)
    (first : Stmt Action) {more : List (Stmt Action)}
    (unmarked : ∀ stmt ∈ first :: more, stmt.hasRegionMarker = false)
    (back : List (Stmt Action)) :
    closeAmong (Stmt.addBehind stop (first :: more) ++ back) = some (first :: more, back) := by
  induction more generalizing first with
  | nil =>
      rw [List.forall_mem_singleton, Stmt.hasRegionMarker_eq_false_iff] at unmarked
      obtain ⟨-, hbefore, -, hafter⟩ := unmarked
      have hstop :
          Stmt.hasAfter { first with after := first.after ++ [stop] } .regionEnd = true := by
        simp [Stmt.hasAfter, Marker.classify_eq_some_iff.mp stops]
      have habove :
          Stmt.hasBefore { first with after := first.after ++ [stop] } .regionEnd = false :=
        hbefore
      rw [Stmt.addBehind, List.singleton_append, closeAmong_cons, habove, hstop,
        Stmt.stripAfter_append stops hafter]
      rfl
  | cons second later ih =>
      rw [List.forall_mem_cons, Stmt.hasRegionMarker_eq_false_iff] at unmarked
      obtain ⟨⟨-, hbefore, -, hafter⟩, hlater⟩ := unmarked
      rw [Stmt.addBehind, List.cons_append, closeAmong_cons, hbefore, hafter, ih second hlater]
      · rfl
      · simp

namespace Inserted

variable (inserted : Inserted Action)

/-- The end marker changes nothing above the first statement of a region. -/
theorem inFrontOf_eq_cons (later : List (Stmt Action)) :
    ∃ head tail, inserted.inFrontOf later = head :: tail ∧
      head.before = inserted.first.before := by
  unfold inFrontOf
  split
  · cases inserted.more with
    | nil => exact ⟨_, _, rfl, rfl⟩
    | cons second rest => exact ⟨_, _, rfl, rfl⟩
  · exact ⟨_, _, rfl, rfl⟩

/-- The end marker of an inserted region ends it, and goes with it. -/
theorem closeAmong_inFrontOf {later : List (Stmt Action)}
    (absent : ∀ next ∈ later.head?, next.hasBefore .regionEnd = false) :
    closeAmong (inserted.inFrontOf later) = some (inserted.first :: inserted.more, later) := by
  unfold inFrontOf
  split
  · exact closeAmong_addBehind inserted.stops inserted.first inserted.unmarked later
  · rename_i hbelow
    rw [Bool.or_eq_true, not_or, Bool.not_eq_true] at hbelow
    have hopen : ∀ stmt ∈ inserted.first :: inserted.more,
        stmt.hasBefore .regionEnd = false ∧ stmt.hasAfter .regionEnd = false := by
      intro stmt member
      have hstmt := Stmt.hasRegionMarker_eq_false_iff.mp (inserted.unmarked stmt member)
      exact ⟨hstmt.2.1, hstmt.2.2.2⟩
    rw [closeAmong_append hopen]
    cases later with
    | nil => exact absurd rfl hbelow.2
    | cons next after =>
        have hstop : (next.attach [inserted.stop]).hasBefore .regionEnd = true := by
          simp [Stmt.hasBefore, Stmt.attach, Marker.classify_eq_some_iff.mp inserted.stops]
        rw [List.modifyHead_cons, closeAmong_cons, hstop, if_pos rfl,
          Stmt.stripBefore_attach inserted.stops (inserted.stop_tight hbelow.1) (absent next rfl)]
        simp

/-- The comments above an inserted region are what is carried from its first
statement, and dropping the start marker gives that statement back. -/
theorem opened_eq {stmt : Stmt Action} {above : List Text}
    (habove : .regionStart ∉ Marker.among above)
    (absent : stmt.hasBefore .regionStart = false) :
    (stmt.attach (above ++ [inserted.start])).hasBefore .regionStart = true ∧
      ((stmt.attach (above ++ [inserted.start])).detach .regionStart).1 = above ∧
      (((stmt.attach (above ++ [inserted.start])).detach .regionStart).2.stripBefore
        .regionStart).1 = stmt := by
  have hdetach : (stmt.attach (above ++ [inserted.start])).detach .regionStart =
      (above, stmt.attach [inserted.start]) :=
    Stmt.detach_of_before_eq (by simp [Stmt.attach]) habove inserted.starts
  refine ⟨?_, ?_, ?_⟩
  · simp [Stmt.hasBefore, Stmt.attach, Marker.classify_eq_some_iff.mp inserted.starts]
  · rw [hdetach]
  · rw [hdetach]
    exact Stmt.stripBefore_attach inserted.starts inserted.start_tight absent

/-- Nothing but the comments above it remains of an inserted region. -/
theorem moved_eq (above : List Text) (outside : List (Stmt Action)) :
    (Cut.mk [] (inserted.first :: inserted.more) above outside).moved = above := by
  have hnone : ∀ stmt ∈ inserted.first :: inserted.more, stmt.after.filter Cut.stays = [] := by
    intro stmt member
    rw [List.filter_eq_nil_iff]
    intro entry hentry
    simp [Cut.stays, inserted.inline stmt member entry hentry]
  unfold Cut.moved
  cases hlast : (inserted.first :: inserted.more).getLast? with
  | none => simp
  | some last => simp [hnone last (List.mem_of_getLast? hlast)]

end Inserted

namespace Piece

/-- No end marker stands above the first of several pieces. -/
theorem hasBefore_head? {pieces : List (Piece Action)}
    (unmarked : ∀ piece ∈ pieces, piece.IsUnmarked) :
    ∀ next ∈ (withRegions pieces).head?, next.hasBefore .regionEnd = false := by
  cases pieces with
  | nil => simp [withRegions]
  | cons piece rest =>
      have hpiece := unmarked piece List.mem_cons_self
      cases piece with
      | own stmt =>
          have hstmt := Stmt.hasRegionMarker_eq_false_iff.mp hpiece
          simpa [withRegions] using hstmt.2.1
      | region above inserted =>
          obtain ⟨head, tail, hstmts, hbefore⟩ :=
            inserted.inFrontOf_eq_cons (withRegions rest)
          obtain ⟨-, hfirst, -⟩ := Stmt.hasRegionMarker_eq_false_iff.mp
            (inserted.unmarked inserted.first List.mem_cons_self)
          rw [Stmt.hasBefore, ← hbefore] at hfirst
          have hhead : .regionEnd ∉ head.marksBefore := by
            rw [← Stmt.hasBefore_iff, Bool.not_eq_true]
            exact hfirst
          have hstart : Marker.among [inserted.start] = [.regionStart] := by
            simp [Marker.among, inserted.starts]
          simp [withRegions, hstmts, Stmt.hasBefore_eq, hstart, hpiece.2, hhead]

/-- Comments above the first of several pieces join those of that piece. -/
theorem addAbove_region (entries above : List Text) (inserted : Inserted Action)
    (rest : List (Piece Action)) (opening closing : Text) :
    Block.addAbove entries ⟨opening, withRegions (.region above inserted :: rest), closing⟩ =
      ⟨opening, withRegions (.region (entries ++ above) inserted :: rest), closing⟩ := by
  obtain ⟨head, tail, hstmts, -⟩ := inserted.inFrontOf_eq_cons (withRegions rest)
  simp [withRegions, hstmts, Block.addAbove, Stmt.attach]

/-- The first of several regions is cut out as it was inserted. -/
theorem remove_region {above : List Text} {inserted : Inserted Action}
    {rest : List (Piece Action)} (habove : .regionStart ∉ Marker.among above)
    (unmarked : ∀ piece ∈ rest, piece.IsUnmarked) (opening closing : Text) :
    remove ⟨opening, withRegions (.region above inserted :: rest), closing⟩ =
      let result := remove (Block.addAbove above ⟨opening, withRegions rest, closing⟩)
      (result.1, (inserted.first :: inserted.more) :: result.2) := by
  obtain ⟨head, tail, hstmts, hbefore⟩ := inserted.inFrontOf_eq_cons (withRegions rest)
  obtain ⟨hstart, hend, -⟩ := Stmt.hasRegionMarker_eq_false_iff.mp
    (inserted.unmarked inserted.first List.mem_cons_self)
  rw [Stmt.hasBefore, ← hbefore] at hstart hend
  obtain ⟨opened, hcarried, hhead⟩ := inserted.opened_eq habove hstart
  have hclosed := inserted.closeAmong_inFrontOf (hasBefore_head? unmarked)
  rw [hstmts, ← close_eq_closeAmong hend, ← hhead] at hclosed
  rw [withRegions, hstmts, List.modifyHead_cons, remove_cons_of_close opened hclosed, hcarried]
  simp only [inserted.moved_eq]

/-- Removing regions undoes their insertion, also when comments have been put
above the first piece. -/
theorem remove_addAbove {pieces : List (Piece Action)}
    (unmarked : ∀ piece ∈ pieces, piece.IsUnmarked) {above : List Text}
    (habove : .regionStart ∉ Marker.among above) (opening closing : Text) :
    remove (Block.addAbove above ⟨opening, withRegions pieces, closing⟩) =
      ((withoutRegions opening closing pieces).addAbove above, regions pieces) := by
  induction pieces generalizing above with
  | nil => rfl
  | cons piece rest ih =>
      obtain ⟨hpiece, hrest⟩ := List.forall_mem_cons.mp unmarked
      cases piece with
      | own stmt =>
          have hstmt := (Stmt.hasRegionMarker_eq_false_iff.mp hpiece).1
          have hshut : (stmt.attach above).hasBefore .regionStart = false := by
            rw [Stmt.hasBefore_eq, decide_eq_false_iff_not] at hstmt ⊢
            simp [habove, hstmt]
          have later : remove ⟨opening, withRegions rest, closing⟩ =
              (withoutRegions opening closing rest, regions rest) := by
            simpa using @ih hrest [] (by simp)
          simp only [withRegions, Block.addAbove]
          rw [remove_cons_of_not_hasBefore hshut, later]
          rfl
      | region comments inserted =>
          have hjoined : .regionStart ∉ Marker.among (above ++ comments) := by
            simp [habove, hpiece.1]
          rw [addAbove_region, remove_region hjoined hrest, ih hrest hjoined]
          simp only [withoutRegions, Block.addAbove_addAbove, regions]

/-! ## Pieces of a block -/

theorem isUnmarked_divide {stmt : Stmt Action} (unmarked : stmt.hasRegionMarker = false)
    (inserted : List (Nat × Inserted Action)) :
    ∀ piece ∈ divide stmt inserted, piece.IsUnmarked := by
  induction inserted generalizing stmt with
  | nil => simpa [divide, IsUnmarked] using unmarked
  | cons first rest ih =>
      obtain ⟨count, region⟩ := first
      obtain ⟨hstart, hend, hafter⟩ := Stmt.hasRegionMarker_eq_false_iff.mp unmarked
      -- The comments that go to the region and those that stay are both without markers.
      have hdivided (marker : Marker) (absent : stmt.hasBefore marker = false) :
          marker ∉ Marker.among (stmt.before.take count) ∧
            marker ∉ Marker.among (stmt.before.drop count) := by
        rw [Stmt.hasBefore_eq, decide_eq_false_iff_not, Stmt.marksBefore,
          ← List.take_append_drop count stmt.before, Marker.among_append, List.mem_append,
          not_or] at absent
        exact absent
      rw [divide, List.forall_mem_cons]
      refine ⟨⟨(hdivided _ hstart).1, (hdivided _ hend).1⟩, ih ?_⟩
      rw [Stmt.hasRegionMarker_eq_false_iff]
      refine ⟨?_, ?_, hafter⟩
      · rw [Stmt.hasBefore_eq, decide_eq_false_iff_not]
        exact (hdivided _ hstart).2
      · rw [Stmt.hasBefore_eq, decide_eq_false_iff_not]
        exact (hdivided _ hend).2

/-- The pieces of a statement make up the statement. -/
theorem withoutRegions_divide (opening closing : Text) (stmt : Stmt Action)
    (inserted : List (Nat × Inserted Action)) (rest : List (Piece Action)) :
    withoutRegions opening closing (divide stmt inserted ++ rest) =
      withoutRegions opening closing (.own stmt :: rest) := by
  induction inserted generalizing stmt with
  | nil => rfl
  | cons first later ih =>
      obtain ⟨count, region⟩ := first
      simp [divide, withoutRegions, ih, Block.addAbove, Stmt.attach]

theorem length_regions_divide (stmt : Stmt Action) (inserted : List (Nat × Inserted Action))
    (rest : List (Piece Action)) :
    (regions (divide stmt inserted ++ rest)).length = inserted.length + (regions rest).length := by
  induction inserted generalizing stmt with
  | nil => simp [divide, regions]
  | cons first later ih =>
      simp only [divide, List.cons_append, regions, List.length_cons, ih]
      omega

end Piece

theorem isUnmarked_pieces {sites : List (Site Action)}
    (unmarked : ∀ site ∈ sites, site.stmt.hasRegionMarker = false)
    (last : List (Inserted Action)) : ∀ piece ∈ pieces sites last, piece.IsUnmarked := by
  simp only [pieces, List.forall_mem_append, List.forall_mem_flatMap, List.forall_mem_map]
  refine ⟨fun site member => Piece.isUnmarked_divide (unmarked site member) site.regions, ?_⟩
  exact fun _ _ => ⟨List.not_mem_nil, List.not_mem_nil⟩

/-- Without its inserted regions a block has the statements of the sites. -/
theorem withoutRegions_pieces (opening closing : Text) (sites : List (Site Action))
    (last : List (Inserted Action)) :
    Piece.withoutRegions opening closing (pieces sites last) =
      ⟨opening, sites.map Site.stmt, closing⟩ := by
  induction sites with
  | nil =>
      induction last with
      | nil => rfl
      | cons first rest ih =>
          have later : Piece.withoutRegions opening closing (rest.map (.region [])) =
              ⟨opening, [], closing⟩ := ih
          simp [pieces, Piece.withoutRegions, later]
  | cons site rest ih =>
      have hpieces : pieces (site :: rest) last =
          Piece.divide site.stmt site.regions ++ pieces rest last := by
        simp [pieces]
      rw [hpieces, Piece.withoutRegions_divide, Piece.withoutRegions, ih, List.map_cons]

/-- Every region of a site and every region at the end is one of the pieces. -/
theorem length_regions_pieces (sites : List (Site Action)) (last : List (Inserted Action)) :
    (Piece.regions (pieces sites last)).length =
      (sites.flatMap Site.regions).length + last.length := by
  induction sites with
  | nil =>
      induction last with
      | nil => rfl
      | cons first rest ih => simpa [pieces, Piece.regions] using ih
  | cons site rest ih =>
      have hpieces : pieces (site :: rest) last =
          Piece.divide site.stmt site.regions ++ pieces rest last := by
        simp [pieces]
      rw [hpieces, Piece.length_regions_divide, ih, List.flatMap_cons, List.length_append,
        Nat.add_assoc]

/-- Removing the regions of a block undoes their insertion: as many regions are
found as were inserted, and the block is the one without them, so that it also
prints the same text. -/
theorem remove_insert (opening closing : Text) {sites : List (Site Action)}
    (unmarked : ∀ site ∈ sites, site.stmt.hasRegionMarker = false)
    (last : List (Inserted Action)) :
    let block : Block Action := ⟨opening, sites.map Site.stmt, closing⟩
    let result := remove (insert opening closing sites last)
    result.2.length = (sites.flatMap Site.regions).length + last.length ∧
      result.1 = block ∧ ∀ action, result.1.print action = block.print action := by
  have hmarkless : Marker.regionStart ∉ Marker.among [] := List.not_mem_nil
  have hremoved : remove (insert opening closing sites last) =
      (⟨opening, sites.map Site.stmt, closing⟩, Piece.regions (pieces sites last)) := by
    rw [← withoutRegions_pieces opening closing sites last]
    simpa [insert] using
      Piece.remove_addAbove (isUnmarked_pieces unmarked last) hmarkless opening closing
  intro block result
  rw [show result = _ from hremoved]
  exact ⟨length_regions_pieces sites last, rfl, fun _ => rfl⟩

/-- A region with its end marker behind its only statement. -/
def Inserted.oneLine : Inserted Text where
  start := "\n\t//dd:startwrap".toList
  first := ⟨[], "\n\t".toList, "a()".toList, [], [], 2⟩
  more := []
  stop := " //dd:endwrap".toList
  behind := true
  starts := by decide
  stops := by decide
  start_tight := by decide
  stop_tight := by decide
  unmarked := by decide
  inline := by decide

/-- A region with its end marker on the line below its two statements. -/
def Inserted.twoLines : Inserted Text where
  start := "\n\t//dd:startwrap".toList
  first := ⟨["\n\t// first".toList], "\n\t".toList, "a()".toList, [], [], 2⟩
  more := [⟨[], "\n\t".toList, "b()".toList, ";".toList, [" // second".toList], 3⟩]
  stop := "\n\t//dd:endwrap".toList
  behind := false
  starts := by decide
  stops := by decide
  start_tight := by decide
  stop_tight := by decide
  unmarked := by decide
  inline := by decide

/-- Four regions in a block of one statement: two between the comments above it,
and two behind it. -/
theorem remove_insert_four :
    let stmt : Stmt Text := ⟨["\n\n\t// k".toList, "\n\t// l".toList], "\n\n\t".toList,
      "c()".toList, [], ["\n\t// m".toList], 5⟩
    let sites : List (Site Text) := [⟨stmt, [(1, .twoLines), (0, .twoLines)]⟩]
    let result := remove (insert "\x7b".toList "\n\x7d".toList sites [.oneLine, .twoLines])
    result.2.length = 4 ∧ result.1 = ⟨"\x7b".toList, [stmt], "\n\x7d".toList⟩ := by
  intro stmt sites result
  have hresult := remove_insert "\x7b".toList "\n\x7d".toList
    (show ∀ site ∈ sites, site.stmt.hasRegionMarker = false by decide) [.oneLine, .twoLines]
  exact ⟨hresult.1, hresult.2.1⟩

end Region

end Deinstrument
