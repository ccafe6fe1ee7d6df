import Deinstrument.Proofs.LineBreaks

/-!
# Removal keeps the ends of lines

Removing regions and spans brings fragments of text together that were never
next to each other. Comments only move to where a region or a span has ended,
that is, below a marker, and the next statement that stays starts on a new
line. So no line comment that stays gets anything new on its line, provided
that the comments above each statement start on a new line to begin with.
-/

namespace Deinstrument

open Fragment (LinesEnd Fresh Replaces)

variable {Action : Type}

/-! ## Blocks -/

/-- The end of a block: comments that were put in front of its closing text, and
that text. -/
def Block.ending (added : List Text) (closing : Text) : List Fragment :=
  added.map .comment ++ [.closing closing]

theorem Block.text_ending (added : List Text) (closing : Text) :
    (ending added closing).flatMap Fragment.text = added.flatten ++ closing := by
  simp [ending, Fragment.text, List.flatMap_map]

section

variable (action : Action → Text) (closing : Text)

/-- Every line comment of a block ends before anything follows, and the comments
of its statements are where they can be moved from. The comments `added` have
been put in front of the closing text. -/
structure Block.LineSafe (opening : List Fragment) (added : List Text) (block : Block Action) :
    Prop where
  closing_eq : block.closing = added.flatten ++ closing
  linesEnd : LinesEnd (opening ++ (block.stmts.flatMap (Stmt.outline action) ++
    ending added closing))
  stmts : ∀ stmt ∈ block.stmts, stmt.LineSafe
  single : ∀ entry ∈ added, Comment.IsSingle entry

/-- A change of a block after which its lines end as before, and statements that
stay start on a new line where others have gone. -/
def Block.Keeps (block result : Block Action) : Prop :=
  ∀ opening added, block.LineSafe action closing opening added →
    (∃ added', result.LineSafe action closing opening added') ∧
      Stmt.Thinned false block.stmts result.stmts

end

variable {action : Action → Text} {closing : Text}

namespace Block.Keeps

theorem refl (block : Block Action) : Keeps action closing block block :=
  fun _ added safe => ⟨⟨added, safe⟩, .refl block.stmts⟩

theorem trans {block middle result : Block Action} (early : Keeps action closing block middle)
    (late : Keeps action closing middle result) : Keeps action closing block result := by
  intro opening added safe
  obtain ⟨⟨added', hmiddle⟩, hearly⟩ := early opening added safe
  obtain ⟨hresult, hlate⟩ := late opening added' hmiddle
  exact ⟨hresult, hearly.trans hlate⟩

/-- The first statement stays as it is, and the others change. -/
theorem cons {opening closing' : Text} {rest : List (Stmt Action)} {result : Block Action}
    (stmt : Stmt Action) (later : Keeps action closing ⟨opening, rest, closing'⟩ result) :
    Keeps action closing ⟨opening, stmt :: rest, closing'⟩
      { result with stmts := stmt :: result.stmts } := by
  intro front added safe
  obtain ⟨hclosing, hends, hstmts, hsingle⟩ := safe
  obtain ⟨hstmt, hrest⟩ := List.forall_mem_cons.mp hstmts
  have hsafe : LineSafe action closing (front ++ stmt.outline action) added
      ⟨opening, rest, closing'⟩ := ⟨hclosing, by simpa using hends, hrest, hsingle⟩
  obtain ⟨⟨added', hclosing', hends', hstmts', hsingle'⟩, hthinned⟩ := later _ added hsafe
  refine ⟨⟨added', hclosing', by simpa using hends', ?_, hsingle'⟩, hthinned.front [stmt]⟩
  exact List.forall_mem_cons.mpr ⟨hstmt, hstmts'⟩

end Block.Keeps

namespace Block.LineSafe

/-- A statement that has lost markers takes the place of the original. -/
theorem replace {opening : List Fragment} {added : List Text} {front back : List (Stmt Action)}
    {opening' closing' : Text} {stmt original : Stmt Action}
    (safe : LineSafe action closing opening added
      ⟨opening', front ++ original :: back, closing'⟩) (loses : Stmt.Loses stmt original) :
    LineSafe action closing opening added ⟨opening', front ++ stmt :: back, closing'⟩ ∧
      Stmt.Thinned false (front ++ original :: back) (front ++ stmt :: back) := by
  obtain ⟨hclosing, hends, hstmts, hsingle⟩ := safe
  obtain ⟨hfront, hothers⟩ := List.forall_mem_append.mp hstmts
  obtain ⟨horiginal, hback⟩ := List.forall_mem_cons.mp hothers
  refine ⟨⟨hclosing, ?_, ?_, hsingle⟩, ?_⟩
  · have hreplaced := loses.outline action (opening ++ front.flatMap (Stmt.outline action))
      (back.flatMap (Stmt.outline action) ++ ending added closing) (by simpa using hends)
    simpa using hreplaced
  · exact List.forall_mem_append.mpr
      ⟨hfront, List.forall_mem_cons.mpr ⟨loses.lineSafe horiginal, hback⟩⟩
  · refine .front front (.stay loses.toSameAs ?_ (fun gone => nomatch gone) (.refl back))
    intro hopens
    have hleading : LinesEnd original.leading := by
      refine List.IsChain.infix hends ⟨opening ++ front.flatMap (Stmt.outline action),
        [.code (action original.action ++ original.terminator)] ++ original.after.map .comment ++
          back.flatMap (Stmt.outline action) ++ ending added closing, ?_⟩
      simp [Stmt.outline]
    exact (Stmt.fresh_leading_iff.mp
      (loses.leading.fresh (Stmt.fresh_leading_iff.mpr ⟨hleading, hopens⟩))).2

/-- Statements are cut out where the comments that move, and what follows them,
can stand behind a line comment. -/
theorem cut {opening : List Fragment} {added : List Text} {block : Block Action}
    {cut : Cut Action} {interval : List (Stmt Action)}
    (safe : LineSafe action closing opening added block)
    (hstmts : block.stmts = cut.front ++ (interval ++ cut.back)) (nonempty : interval ≠ [])
    (single : ∀ entry ∈ cut.moved, Comment.IsSingle entry)
    (fresh : Fresh (cut.moved.map .comment ++
      (cut.back.flatMap (Stmt.outline action) ++ ending added closing))) :
    (∃ added', LineSafe action closing opening added' (cut.apply block)) ∧
      Stmt.Thinned false block.stmts (cut.apply block).stmts := by
  obtain ⟨hclosing, hends, hsafe, hsingle⟩ := safe
  rw [hstmts] at hends hsafe ⊢
  obtain ⟨hfront, hothers⟩ := List.forall_mem_append.mp hsafe
  have hback := (List.forall_mem_append.mp hothers).2
  have hbegin : LinesEnd (opening ++ cut.front.flatMap (Stmt.outline action)) := by
    rw [List.flatMap_append, List.append_assoc, ← List.append_assoc] at hends
    exact List.IsChain.left_of_append hends
  have hjoined := hbegin.append_fresh fresh
  generalize hmoved : cut.moved = moved at single fresh hjoined
  obtain ⟨front, removed, carried, back⟩ := cut
  cases back with
  | nil =>
      refine ⟨⟨moved ++ added, ?_, ?_, hfront, List.forall_mem_append.mpr ⟨single, hsingle⟩⟩, ?_⟩
      · simp [Cut.apply, hmoved, hclosing]
      · simpa [Cut.apply, ending] using hjoined
      · have hgone : Stmt.Thinned false (interval ++ []) [] :=
          .leaveAll interval (.nil true) nonempty
        simpa [Cut.apply] using hgone.front front
  | cons next later =>
      obtain ⟨hnext, hlater⟩ := List.forall_mem_cons.mp hback
      have hleading : Fresh (next.attach moved).leading := by
        refine fresh.of_front ⟨[.code (action next.action ++ next.terminator)] ++
          next.after.map .comment ++ later.flatMap (Stmt.outline action) ++
          ending added closing, ?_⟩
        simp [Stmt.leading, Stmt.outline, Stmt.attach]
      refine ⟨⟨added, ?_, ?_, ?_, hsingle⟩, ?_⟩
      · simp [Cut.apply, hclosing]
      · simpa [Cut.apply, hmoved, Stmt.outline, Stmt.leading, Stmt.attach] using hjoined
      · simp only [Cut.apply, hmoved]
        refine List.forall_mem_append.mpr ⟨hfront, List.forall_mem_cons.mpr ⟨?_, hlater⟩⟩
        refine ⟨hleading.of_front (List.prefix_append _ _), hnext.behind, ?_⟩
        intro entry member
        simp only [Stmt.attach, List.append_assoc, List.mem_append] at member
        rcases member with member | member
        · exact single entry member
        · exact hnext.single entry (List.mem_append.mpr member)
      · simp only [Cut.apply, hmoved]
        refine .front front (.leaveAll interval ?_ nonempty)
        have hopens := (Stmt.fresh_leading_iff.mp hleading).2
        exact .stay ⟨rfl, rfl, rfl⟩ (fun _ => hopens) (fun _ => hopens) (.refl later)

end Block.LineSafe

/-- One statement of a block loses markers. -/
theorem Block.Keeps.replace (opening closing' : Text) (front : List (Stmt Action))
    {stmt original : Stmt Action} (loses : Stmt.Loses stmt original)
    (back : List (Stmt Action)) :
    Keeps action closing ⟨opening, front ++ original :: back, closing'⟩
      ⟨opening, front ++ stmt :: back, closing'⟩ := by
  intro _ added safe
  obtain ⟨hsafe, hthinned⟩ := safe.replace loses
  exact ⟨⟨added, hsafe⟩, hthinned⟩

/-! ## Where comments move to -/

/-- Behind a statement with a marker behind it, the comments that stay and what
follows them can stand behind a line comment. -/
theorem Stmt.fresh_behind {stmt : Stmt Action} {marker : Marker}
    (marked : stmt.hasAfter marker = true)
    (behind : Fresh ((stmt.after.filter Cut.stays).map .comment)) {back : List Fragment}
    (ends : LinesEnd (stmt.after.map .comment ++ back)) :
    Fresh ((stmt.after.filter Cut.stays).map .comment ++ back) := by
  by_cases hnone : stmt.after.filter Cut.stays = []
  · -- Nothing stays, so what follows the marker is all that is left.
    obtain ⟨entry, member, hon⟩ := List.any_eq_true.mp marked
    obtain ⟨earlier, later, hafter⟩ := List.append_of_mem member
    have hlater : later.filter Cut.stays = [] := by
      rw [List.filter_eq_nil_iff] at hnone ⊢
      intro other hother
      exact hnone other (by simp [hafter, hother])
    have hbehind : LinesEnd (.comment entry :: (later.map .comment ++ back)) := by
      refine List.IsChain.suffix ends ⟨earlier.map .comment, ?_⟩
      simp [hafter]
    have hfresh := ((Replaces.filter_stays later).append (.refl back)).fresh
      (hbehind.fresh (Comment.isLine_of_isOn hon))
    rw [hnone]
    rwa [hlater] at hfresh
  · refine behind.extend (by simpa using hnone) ?_
    have hreplaced := Replaces.filter_stays stmt.after [] back (by simpa using ends)
    simpa using hreplaced

/-- A statement that loses a marker above it can stand behind a line comment. -/
theorem Stmt.LineSafe.fresh_stripBefore {stmt : Stmt Action} (safe : stmt.LineSafe)
    {marker : Marker} (marked : stmt.hasBefore marker = true) {back : List Fragment}
    (ends : LinesEnd (stmt.outline action ++ back)) :
    Fresh ((stmt.stripBefore marker).1.outline action ++ back) := by
  have hbefore : stmt.before.map Fragment.comment ≠ [] := by
    obtain ⟨entry, member, -⟩ := List.any_eq_true.mp marked
    simpa using List.ne_nil_of_mem member
  have hfresh : Fresh (stmt.outline action ++ back) := by
    have hwhole : stmt.outline action ++ back = stmt.before.map .comment ++
        ([.code stmt.space, .code (action stmt.action ++ stmt.terminator)] ++
          stmt.after.map .comment ++ back) := by
      simp [outline, leading]
    rw [hwhole] at ends ⊢
    exact safe.above.extend hbefore ends
  exact ((stmt.loses_stripBefore marker).outline action).append (.refl back) |>.fresh hfresh

/-- What moves in a cut are the comments taken off its first statement and those
behind the last one that stay. -/
theorem Cut.moved_eq_append {cut : Cut Action} {earlier : List (Stmt Action)} {last : Stmt Action}
    (hremoved : cut.removed = earlier ++ [last]) :
    cut.moved = cut.carried ++ last.after.filter stays := by
  simp [moved, hremoved]

namespace Block.LineSafe

variable {opening : List Fragment} {added carried : List Text} {opening' closing' : Text}
  {front more init removed : List (Stmt Action)} {first last : Stmt Action} {marker : Marker}

/-- What can be said about statements before they are cut out: the comments above
the first one can move, and so can those behind the last one. -/
theorem interval {back : List (Stmt Action)}
    (safe : LineSafe action closing opening added
      ⟨opening', front ++ (first.attach carried :: more ++ back), closing'⟩)
    (ended : first :: more = init ++ [last]) :
    Fresh (carried.map .comment) ∧ Fresh ((last.after.filter Cut.stays).map .comment) ∧
      (∀ entry ∈ carried ++ last.after.filter Cut.stays, Comment.IsSingle entry) ∧
      LinesEnd (last.after.map .comment ++
        (back.flatMap (Stmt.outline action) ++ ending added closing)) := by
  obtain ⟨-, hends, hsafe, -⟩ := safe
  have hinterval := (List.forall_mem_append.mp (List.forall_mem_append.mp hsafe).2).1
  obtain ⟨hfirst, hmore⟩ := List.forall_mem_cons.mp hinterval
  -- Taking comments off the first statement leaves those behind it.
  have hbehind : ∀ stmt ∈ first :: more, Fresh ((stmt.after.filter Cut.stays).map .comment) ∧
      ∀ entry ∈ stmt.after, Comment.IsSingle entry := by
    refine List.forall_mem_cons.mpr ⟨⟨hfirst.behind, ?_⟩, ?_⟩
    · intro entry member
      exact hfirst.single entry (List.mem_append_right _ member)
    · intro stmt member
      exact ⟨(hmore stmt member).behind, fun entry hentry =>
        (hmore stmt member).single entry (List.mem_append_right _ hentry)⟩
  obtain ⟨hstays, hsingle⟩ := hbehind last (by simp [ended])
  have habove : carried.map Fragment.comment <+: (first.attach carried).before.map .comment := by
    simp [Stmt.attach]
  refine ⟨hfirst.above.of_front habove, hstays, ?_, ?_⟩
  · refine List.forall_mem_append.mpr ⟨?_, ?_⟩
    · intro entry member
      exact hfirst.single entry (by simp [Stmt.attach, member])
    · intro entry member
      exact hsingle entry (List.mem_filter.mp member).1
  · have hinner : LinesEnd ((first :: more).flatMap (Stmt.outline action) ++
        (back.flatMap (Stmt.outline action) ++ ending added closing)) := by
      refine List.IsChain.suffix hends
        ⟨opening ++ front.flatMap (Stmt.outline action) ++ carried.map .comment, ?_⟩
      simp [Stmt.outline, Stmt.leading, Stmt.attach]
    rw [ended] at hinner
    refine List.IsChain.suffix hinner ⟨init.flatMap (Stmt.outline action) ++ last.leading ++
      [.code (action last.action ++ last.terminator)], ?_⟩
    simp [Stmt.outline]

/-- Statements are cut out up to one with a marker behind it. -/
theorem cut_behind {back : List (Stmt Action)}
    (safe : LineSafe action closing opening added
      ⟨opening', front ++ (first.attach carried :: more ++ back), closing'⟩)
    (ended : first :: more = init ++ [last]) (marked : last.hasAfter marker = true)
    (moves : (Cut.mk front removed carried back).moved = carried ++ last.after.filter Cut.stays) :
    let block : Block Action :=
      ⟨opening', front ++ (first.attach carried :: more ++ back), closing'⟩
    (∃ added', LineSafe action closing opening added'
      ((Cut.mk front removed carried back).apply block)) ∧
      Stmt.Thinned false block.stmts ((Cut.mk front removed carried back).apply block).stmts := by
  obtain ⟨hcarried, hstays, hsingle, hends⟩ := safe.interval ended
  refine safe.cut rfl (List.cons_ne_nil _ _) (moves ▸ hsingle) ?_
  have hfresh := hcarried.append (Stmt.fresh_behind marked hstays hends)
  rw [moves]
  simpa using hfresh

/-- Statements are cut out up to one that has a marker above it. -/
theorem cut_above {next : Stmt Action} {later : List (Stmt Action)}
    (safe : LineSafe action closing opening added
      ⟨opening', front ++ (first.attach carried :: more ++ next :: later), closing'⟩)
    (ended : first :: more = init ++ [last]) (marked : next.hasBefore marker = true)
    (moves : (Cut.mk front removed carried ((next.stripBefore marker).1 :: later)).moved =
      carried ++ last.after.filter Cut.stays) :
    let block : Block Action :=
      ⟨opening', front ++ (first.attach carried :: more ++ next :: later), closing'⟩
    let cut : Cut Action := ⟨front, removed, carried, (next.stripBefore marker).1 :: later⟩
    (∃ added', LineSafe action closing opening added' (cut.apply block)) ∧
      Stmt.Thinned false block.stmts (cut.apply block).stmts := by
  intro block cut
  obtain ⟨hcarried, hstays, hsingle, -⟩ := safe.interval ended
  have hnext : next.LineSafe := safe.stmts next (by simp)
  have hends : LinesEnd (next.outline action ++
      (later.flatMap (Stmt.outline action) ++ ending added closing)) := by
    refine List.IsChain.suffix safe.linesEnd ⟨opening ++ front.flatMap (Stmt.outline action) ++
      (first.attach carried :: more).flatMap (Stmt.outline action), ?_⟩
    simp
  have hfresh := (hcarried.append hstays).append (hnext.fresh_stripBefore marked hends)
  -- The marker goes first, and then the statements in front of it.
  have hsafe : LineSafe action closing opening added
      ⟨opening', front ++ (first.attach carried :: more) ++ next :: later, closing'⟩ := by
    simpa using safe
  obtain ⟨hstripped, hthinned⟩ := hsafe.replace (next.loses_stripBefore marker)
  have hsplit : front ++ (first.attach carried :: more) ++ (next.stripBefore marker).1 :: later =
      cut.front ++ (first.attach carried :: more ++ cut.back) := List.append_assoc _ _ _
  have hcut := hstripped.cut hsplit (List.cons_ne_nil _ _) (by rw [moves]; exact hsingle)
    (by rw [moves]; simpa [cut] using hfresh)
  rw [List.append_assoc] at hthinned
  exact ⟨hcut.1, hthinned.trans hcut.2⟩

end Block.LineSafe

namespace Region

/-- Cutting out a region keeps the ends of lines. -/
theorem close_keeps {opening closing' : Text} {carried : List Text} {first : Stmt Action}
    {rest inside outside : List (Stmt Action)}
    (closed : close first rest = some (inside, outside)) :
    Block.Keeps action closing ⟨opening, first.attach carried :: rest, closing'⟩
      (Block.addAbove (Cut.mk [] inside carried outside).moved ⟨opening, outside, closing'⟩) := by
  intro front added safe
  have happly : (Cut.mk [] inside carried outside).apply
      ⟨opening, first.attach carried :: rest, closing'⟩ =
      Block.addAbove (Cut.mk [] inside carried outside).moved ⟨opening, outside, closing'⟩ :=
    Cut.apply_eq _ _
  rw [← happly]
  rcases close_cases closed with
    ⟨next, later, hends, hsplit, nonempty, rfl⟩ | ⟨earlier, last, hends, hsplit, rfl⟩
  · have hlast := (List.dropLast_append_getLast nonempty).symm
    obtain ⟨hnil, -⟩ | ⟨more, hinside, rfl⟩ := List.cons_eq_append_iff.mp hsplit
    · contradiction
    · exact Block.LineSafe.cut_above safe (hinside.symm.trans hlast) hends
        (Cut.moved_eq_append hlast)
  · rw [List.append_cons] at hsplit
    obtain ⟨hnil, -⟩ | ⟨more, hinterval, rfl⟩ := List.cons_eq_append_iff.mp hsplit
    · simp at hnil
    · refine Block.LineSafe.cut_behind safe hinterval.symm hends ?_
      rw [Cut.moved_eq_append rfl, (last.loses_stripAfter .regionEnd).stays]

theorem openedAt_keeps (opening : Text) (stmt : Stmt Action) (rest : List (Stmt Action))
    (closing' : Text) :
    Block.Keeps action closing ⟨opening, stmt :: rest, closing'⟩
      ⟨opening, openedAt stmt :: rest, closing'⟩ :=
  .replace opening closing' [] (loses_openedAt stmt) rest

/-- Removing regions keeps the ends of lines. -/
theorem remove_keeps (block : Block Action) :
    Block.Keeps action closing block (remove block).1 := by
  induction block using remove_induction with
  | nil opening closing => exact .refl _
  | keep opening stmt rest closing result shut ih => exact ih.cons stmt
  | drop opening stmt rest closing' result opened ih =>
      exact (openedAt_keeps opening stmt rest closing').trans (ih.cons (openedAt stmt))
  | cut opening stmt rest closing' inside outside result opened closed ih =>
      -- The start marker goes first, then the region, then what follows it.
      exact ((openedAt_keeps opening stmt rest closing').trans (close_keeps closed)).trans ih

end Region

theorem Cut.apply_with (block : Block Action) (stmts : List (Stmt Action)) (cut : Cut Action) :
    cut.apply { block with stmts := stmts } = cut.apply block := by
  rw [apply_eq, apply_eq]

namespace Span

/-- A cut takes comments off its first statement and nothing off the last one. -/
theorem cutOut_eq (front init : List (Stmt Action)) (stmt : Stmt Action)
    (back : List (Stmt Action)) :
    ∃ carried first more earlier last, init ++ [stmt] = first.attach carried :: more ∧
      first :: more = earlier ++ [last] ∧ last.after = stmt.after ∧
      cutOut front (init ++ [stmt]) back = ⟨front, first :: more, carried, back⟩ := by
  obtain ⟨earlier, last, hremoved, hafter⟩ := cutOut_removed_last front init back stmt
  obtain ⟨original, more, hinside⟩ := List.exists_cons_of_ne_nil
    (List.append_ne_nil_of_right_ne_nil init (List.cons_ne_nil stmt []))
  obtain ⟨carried, left, hdetach, hbefore⟩ := original.detach_eq .spanStart
  have hcut : cutOut front (init ++ [stmt]) back =
      ⟨front, { original with before := left } :: more, carried, back⟩ := by
    rw [hinside, cutOut, hdetach]
  rw [hcut] at hremoved
  refine ⟨carried, { original with before := left }, more, earlier, last, ?_, hremoved, hafter,
    hcut⟩
  rw [hinside, Stmt.attach, hbefore]

/-- Cutting out a span with its end marker behind it keeps the ends of lines. -/
theorem cutOut_keeps_behind (block : Block Action) (front init : List (Stmt Action))
    {stmt : Stmt Action} (back : List (Stmt Action)) (marked : stmt.hasAfter .spanEnd = true) :
    Block.Keeps action closing { block with stmts := front ++ (init ++ [stmt] ++ back) }
      ((cutOut front (init ++ [stmt]) back).apply block) := by
  obtain ⟨carried, first, more, earlier, last, hinside, hended, hsame, hcut⟩ :=
    cutOut_eq front init stmt back
  have hmarked : last.hasAfter .spanEnd = true := by rwa [Stmt.hasAfter, hsame]
  rw [hcut, hinside, ← Cut.apply_with block (front ++ (first.attach carried :: more ++ back))]
  intro opening added safe
  exact safe.cut_behind hended hmarked (Cut.moved_eq_append hended)

/-- Cutting out a span with its end marker below it keeps the ends of lines. -/
theorem cutOut_keeps_above (block : Block Action) (front init : List (Stmt Action))
    (stmt : Stmt Action) {next : Stmt Action} (later : List (Stmt Action))
    (marked : next.hasBefore .spanEnd = true) :
    Block.Keeps action closing { block with stmts := front ++ (init ++ [stmt] ++ next :: later) }
      ((cutOut front (init ++ [stmt]) ((next.stripBefore .spanEnd).1 :: later)).apply block) := by
  obtain ⟨carried, first, more, earlier, last, hinside, hended, -, hcut⟩ :=
    cutOut_eq front init stmt ((next.stripBefore .spanEnd).1 :: later)
  rw [hcut, hinside,
    ← Cut.apply_with block (front ++ (first.attach carried :: more ++ next :: later))]
  intro opening added safe
  exact safe.cut_above hended marked (Cut.moved_eq_append hended)

/-- A scan keeps the ends of lines. -/
theorem scanFrom_keeps (block : Block Action) (front inside rest : List (Stmt Action)) :
    Block.Keeps action closing { block with stmts := front ++ inside ++ rest }
      ((scanFrom front inside rest).1.applyTo block) := by
  induction rest generalizing front inside with
  | nil => simpa [scanFrom, Scan.applyTo] using Block.Keeps.refl _
  | cons stmt rest ih =>
      obtain ⟨front', inside', hjoin, hscan⟩ := scanFrom_cons front inside stmt rest
      rw [hscan, ← hjoin]
      by_cases hbefore : stmt.hasBefore .spanEnd = true
      · rw [if_pos hbefore]
        split
        · rename_i hempty
          rw [List.isEmpty_iff.mp hempty, List.append_nil]
          have hloses := ((stmt.stripBefore .spanEnd).1.loses_stripBefore .spanStart).trans
            (stmt.loses_stripBefore .spanEnd)
          exact .replace block.opening block.closing front' hloses rest
        · rename_i hsome
          have nonempty : inside' ≠ [] := by simpa using hsome
          have hcut : Block.Keeps action closing _ _ := cutOut_keeps_above block front'
            inside'.dropLast (inside'.getLast nonempty) rest hbefore
          rw [List.dropLast_append_getLast nonempty, ← List.append_assoc] at hcut
          exact hcut
      · rw [if_neg hbefore]
        by_cases hafter : stmt.hasAfter .spanEnd = true
        · rw [if_pos hafter]
          have hcut : Block.Keeps action closing _ _ :=
            cutOut_keeps_behind block front' inside' rest hafter
          rw [List.append_assoc inside', List.singleton_append, ← List.append_assoc] at hcut
          exact hcut
        · rw [if_neg hafter]
          by_cases htagged : stmt.hasBefore .instrumented = true
          · rw [if_pos htagged]
            have hstripped : Block.Keeps action closing
                { block with stmts := front' ++ inside' ++ stmt :: rest }
                { block with stmts := front' ++ inside' ++ (stmt.strip .instrumented).1 :: rest } :=
              .replace block.opening block.closing (front' ++ inside')
                (stmt.loses_strip .instrumented) rest
            have later := ih front' (inside' ++ [(stmt.strip .instrumented).1])
            simp only [List.append_assoc, List.singleton_append] at hstripped later ⊢
            exact hstripped.trans later
          · rw [if_neg htagged]
            simpa using ih front' (inside' ++ [stmt])

theorem scan_keeps (block : Block Action) :
    Block.Keeps action closing block ((scan block.stmts).1.applyTo block) :=
  scanFrom_keeps block [] [] block.stmts

/-- Removing spans keeps the ends of lines. -/
theorem remove_keeps (block : Block Action) :
    Block.Keeps action closing block (remove block).1 := by
  induction block using remove_induction with
  | done block stmts tags found =>
      have hscan : Block.Keeps action closing block _ := scan_keeps block
      rw [found] at hscan
      exact hscan
  | more block result ih => exact (scan_keeps block).trans ih

end Span

/-- Stripping a block keeps the ends of lines. -/
theorem Engine.stripBlock_keeps (engine : Engine) (scope : Scope)
    (block : Block Deinstrument.Action) (closing : Text) :
    Block.Keeps Deinstrument.Action.print closing block (engine.stripBlock scope block).1 :=
  (Region.remove_keeps block).trans (Span.remove_keeps (Region.remove block).1)

end Deinstrument
