import Deinstrument.Proofs.Rescan
import Mathlib.Data.List.Forall2

/-!
# How regions divide a block

Removing regions divides the statements of a block into those that stay and
intervals that go, each of them once and in order. Statements that stay lose
only region markers above them, and all that can join the comments above them
comes from the intervals removed just before. The division refers to the
statements as they were in the beginning, although each removal changes the
statement behind it before the scan starts again.
-/

namespace Deinstrument

/-- A text is another one with line feeds put in front. -/
def Text.Lowered (text original : Text) : Prop :=
  ∃ count, text = List.replicate count '\n' ++ original

namespace Text.Lowered

@[refl]
theorem refl (text : Text) : Lowered text text :=
  ⟨0, rfl⟩

theorem trans {text middle original : Text} (late : Lowered text middle)
    (early : Lowered middle original) : Lowered text original := by
  obtain ⟨more, rfl⟩ := late
  obtain ⟨count, rfl⟩ := early
  exact ⟨more + count, by rw [List.replicate_add, List.append_assoc]⟩

instance : Std.Refl Lowered := ⟨refl⟩

instance : IsTrans Text Lowered := ⟨fun _ _ _ late early => late.trans early⟩

/-- Line feeds in front of a comment belong to the blanks before it. -/
theorem body_eq {text original : Text} (lowered : Lowered text original) :
    Comment.body text = Comment.body original := by
  obtain ⟨count, rfl⟩ := lowered
  induction count with
  | zero => rfl
  | succ count ih =>
      rw [List.replicate_succ, List.cons_append, Comment.body, List.dropWhile_cons]
      exact ih

end Text.Lowered

/-- A relation that is transitive for members is so for lists of them. -/
theorem forall₂_trans {α : Type} {relation : α → α → Prop} [IsTrans α relation]
    {values middle originals : List α} (late : List.Forall₂ relation values middle)
    (early : List.Forall₂ relation middle originals) : List.Forall₂ relation values originals := by
  induction late generalizing originals with
  | nil => exact early
  | cons first rest ih =>
      cases early with
      | cons first' rest' => exact .cons (trans_of relation first first') (ih rest')

open Text (Lowered)

theorem Stmt.carry_lowered (blank : Nat) (text : Text) : Lowered (carry blank text) text := by
  unfold carry
  split
  · exact ⟨blank, rfl⟩
  · exact .refl text

/-- Comments that stem from others: some of these, in their order, each with
line feeds put in front at most. -/
def Comment.StemFrom (sources entries : List Text) : Prop :=
  List.SublistForall₂ Lowered entries sources

namespace Comment.StemFrom

theorem nil (sources : List Text) : StemFrom sources [] :=
  List.SublistForall₂.nil

theorem of_sublist {sources entries : List Text} (sublist : List.Sublist entries sources) :
    StemFrom sources entries :=
  sublist.sublistForall₂

theorem of_forall₂ {sources entries : List Text} (lowered : List.Forall₂ Lowered entries sources) :
    StemFrom sources entries :=
  List.sublistForall₂_iff.mpr ⟨sources, lowered, .refl sources⟩

theorem trans {sources middle entries : List Text} (early : StemFrom sources middle)
    (late : StemFrom middle entries) : StemFrom sources entries :=
  List.SublistForall₂.is_trans.trans entries middle sources late early

theorem append {sources sources' entries entries' : List Text} (front : StemFrom sources entries)
    (back : StemFrom sources' entries') : StemFrom (sources ++ sources') (entries ++ entries') := by
  obtain ⟨chosen, hchosen, hsublist⟩ := List.sublistForall₂_iff.mp front
  obtain ⟨chosen', hchosen', hsublist'⟩ := List.sublistForall₂_iff.mp back
  exact List.sublistForall₂_iff.mpr
    ⟨chosen ++ chosen', List.rel_append hchosen hchosen', hsublist.append hsublist'⟩

theorem eq_nil {entries : List Text} (stem : StemFrom [] entries) : entries = [] := by
  cases stem
  rfl

end Comment.StemFrom

open Comment (StemFrom)

variable {Action : Type}

namespace Stmt

/-- All comments of statements, in order. -/
def comments (stmts : List (Stmt Action)) : List Text :=
  stmts.flatMap fun stmt => stmt.before ++ stmt.after

@[simp]
theorem comments_cons (stmt : Stmt Action) (rest : List (Stmt Action)) :
    comments (stmt :: rest) = stmt.before ++ stmt.after ++ comments rest := by
  simp [comments]

theorem after_sublist_comments (stmts : List (Stmt Action)) :
    List.Sublist (stmts.flatMap (·.after)) (comments stmts) := by
  induction stmts with
  | nil => exact .slnil
  | cons stmt rest ih =>
      rw [List.flatMap_cons, comments_cons]
      exact (List.sublist_append_right _ _).append ih

/-- Two statements that differ in nothing but comments and blanks. -/
structure SameAs (stmt original : Stmt Action) : Prop where
  action : stmt.action = original.action
  terminator : stmt.terminator = original.terminator
  line : stmt.line = original.line

namespace SameAs

@[refl]
theorem refl (stmt : Stmt Action) : SameAs stmt stmt :=
  ⟨rfl, rfl, rfl⟩

theorem trans {stmt middle original : Stmt Action} (late : SameAs stmt middle)
    (early : SameAs middle original) : SameAs stmt original :=
  ⟨late.action.trans early.action, late.terminator.trans early.terminator,
    late.line.trans early.line⟩

end SameAs

/-- Whether a comment is a marker of one of several kinds. -/
def isLost (lost : List Marker) (entry : Text) : Bool :=
  lost.any fun marker => marker.isOn (Comment.body entry)

/-- What becomes of a statement that stays. Above it the markers of some kinds
are lost, and other comments may join in front of its own; everything behind it
stays as it is. -/
structure StaysAs (lost : List Marker) (joining : List Text) (original stmt : Stmt Action) :
    Prop extends SameAs stmt original where
  after : stmt.after = original.after
  space : Lowered stmt.space original.space
  before : ∃ joined own, stmt.before = joined ++ own ∧ StemFrom joining joined ∧
    List.Forall₂ Lowered own (original.before.filter fun entry => !isLost lost entry)

/-! ## Dropping markers -/

theorem dropEntries_lowered (drops : Text → Bool) (blank : Nat) (entries : List Text)
    (space : Text) :
    List.Forall₂ Lowered (dropEntries drops blank entries space).1
      (entries.filter fun entry => !drops (Comment.body entry)) ∧
    Lowered (dropEntries drops blank entries space).2.1 space := by
  induction entries generalizing blank with
  | nil => exact ⟨.nil, carry_lowered blank space⟩
  | cons first rest ih =>
      by_cases hdrops : drops (Comment.body first) = true
      · rw [dropEntries_cons_drop hdrops, List.filter_cons_of_neg (by simp [hdrops])]
        exact ih _
      · obtain ⟨hentries, hspace⟩ := ih 0
        rw [dropEntries_cons_keep hdrops, List.filter_cons_of_pos (by simp [hdrops])]
        exact ⟨.cons (carry_lowered blank first) hentries, hspace⟩

/-- Dropping the markers of one kind above a statement loses nothing else. -/
theorem staysAs_stripBefore (stmt : Stmt Action) (marker : Marker) :
    StaysAs [marker] [] stmt (stmt.stripBefore marker).1 := by
  obtain ⟨hentries, hspace⟩ := dropEntries_lowered marker.isOn 0 stmt.before stmt.space
  refine ⟨⟨rfl, rfl, rfl⟩, rfl, hspace, [], _, rfl, .nil [], ?_⟩
  simpa [isLost] using hentries

namespace StaysAs

theorem refl (stmt : Stmt Action) : StaysAs [] [] stmt stmt := by
  refine ⟨.refl stmt, rfl, .refl _, [], stmt.before, rfl, .nil [], ?_⟩
  simpa [isLost] using List.forall₂_refl stmt.before

/-- Comments that join a statement come from the ones that were given to it. -/
theorem attach {lost : List Marker} {joining entries : List Text} {original stmt : Stmt Action}
    (stays : StaysAs lost [] original stmt) (stem : StemFrom joining entries) :
    StaysAs lost joining original (stmt.attach entries) := by
  obtain ⟨same, after, space, joined, own, hbefore, hjoined, hown⟩ := stays
  rw [hjoined.eq_nil] at hbefore
  exact ⟨⟨same.action, same.terminator, same.line⟩, after, space, entries, own,
    congrArg (entries ++ ·) hbefore, stem, hown⟩

theorem mono {lost : List Marker} {joining more : List Text} {original stmt : Stmt Action}
    (stays : StaysAs lost joining original stmt) (stem : StemFrom more joining) :
    StaysAs lost more original stmt := by
  obtain ⟨same, after, space, joined, own, hbefore, hjoined, hown⟩ := stays
  exact ⟨same, after, space, joined, own, hbefore, stem.trans hjoined, hown⟩

/-- Line feeds in front of comments do not decide which of them are lost. -/
theorem filter_lowered (lost : List Marker) {entries originals : List Text}
    (lowered : List.Forall₂ Lowered entries originals) :
    List.Forall₂ Lowered (entries.filter fun entry => !isLost lost entry)
      (originals.filter fun entry => !isLost lost entry) := by
  refine List.rel_filter ?_ lowered
  intro entry original hentry
  simp only [isLost, hentry.body_eq]

/-- Losing markers one kind after the other. -/
theorem trans {lost lost' : List Marker} {joining : List Text} {original middle stmt : Stmt Action}
    (late : StaysAs lost' [] middle stmt) (early : StaysAs lost joining original middle) :
    StaysAs (lost' ++ lost) joining original stmt := by
  obtain ⟨same, after, space, joined, own, hbefore, hjoined, hown⟩ := early
  obtain ⟨same', after', space', none, left, hbefore', hnone, hleft⟩ := late
  rw [hnone.eq_nil, List.nil_append] at hbefore'
  rw [hbefore, List.filter_append] at hleft
  have hdivided := List.take_append_drop
    (joined.filter fun entry => !isLost lost' entry).length left
  have hjoined' := List.forall₂_take_append _ _ _ hleft
  have hown' := List.forall₂_drop_append _ _ _ hleft
  refine ⟨same'.trans same, after'.trans after, space'.trans space, _, _,
    hbefore'.trans hdivided.symm, ?_, ?_⟩
  · exact (hjoined.trans (.of_sublist List.filter_sublist)).trans (.of_forall₂ hjoined')
  · have hlost := (filter_lowered lost' hown)
    rw [List.filter_filter] at hlost
    refine forall₂_trans hown' ?_
    simpa only [isLost, List.any_append, Bool.not_or] using hlost

end StaysAs

theorem staysAs_of_not_hasBefore {stmt : Stmt Action} {marker : Marker}
    (absent : stmt.hasBefore marker = false) : StaysAs [marker] [] stmt stmt := by
  refine ⟨.refl stmt, rfl, .refl _, [], stmt.before, rfl, .nil [], ?_⟩
  have hkept : (stmt.before.filter fun entry => !isLost [marker] entry) = stmt.before := by
    simpa [isLost, List.filter_eq_self, hasBefore] using absent
  rw [hkept]
  exact List.forall₂_refl stmt.before

/-- The comments of a statement that stays are its own, and those that join. -/
theorem StaysAs.comments {lost : List Marker} {joining : List Text} {original stmt : Stmt Action}
    (stays : StaysAs lost joining original stmt) :
    StemFrom (joining ++ (original.before ++ original.after)) (stmt.before ++ stmt.after) := by
  obtain ⟨-, after, -, joined, own, hbefore, hjoined, hown⟩ := stays
  have hown := (StemFrom.of_sublist List.filter_sublist).trans (.of_forall₂ hown)
  rw [hbefore, after, List.append_assoc]
  exact hjoined.append (hown.append (.of_sublist (.refl _)))

end Stmt

namespace Region

/-- How a removal divides statements: each one stays or belongs to an interval
that is removed as a region. `above` holds the comments of the intervals since
the last statement that stays. -/
inductive Division : List Text → List (Stmt Action) → List (List (Stmt Action)) →
    List (Stmt Action) → Prop
  | nil (above : List Text) : Division above [] [] []
  | stay {above : List Text} {lost : List Marker} {stmt left : Stmt Action}
      {rest : List (Stmt Action)} {regions : List (List (Stmt Action))}
      {kept : List (Stmt Action)} (starts : .regionStart ∈ lost)
      (only : lost ⊆ [.regionStart, .regionEnd]) (stays : Stmt.StaysAs lost above stmt left)
      (later : Division [] rest regions kept) :
      Division above (stmt :: rest) regions (left :: kept)
  | region {above : List Text} {interval region rest : List (Stmt Action)}
      {regions : List (List (Stmt Action))} {kept : List (Stmt Action)} (nonempty : interval ≠ [])
      (same : List.Forall₂ Stmt.SameAs region interval)
      (later : Division (above ++ Stmt.comments interval) rest regions kept) :
      Division above (interval ++ rest) (region :: regions) kept

namespace Division

theorem mono {above more : List Text} {stmts kept : List (Stmt Action)}
    {regions : List (List (Stmt Action))} (division : Division above stmts regions kept)
    (stem : StemFrom more above) : Division more stmts regions kept := by
  induction division generalizing more with
  | nil => exact .nil more
  | stay starts only stays later ih => exact .stay starts only (stays.mono stem) later
  | @region above interval region rest regions kept nonempty same later ih =>
      exact .region nonempty same (ih (stem.append (.of_sublist (.refl _))))

/-- A division of statements of which the first has been changed is one of the
statements as they were before. -/
theorem replaceFirst {above : List Text} {lost : List Marker} {original stmt : Stmt Action}
    {rest kept : List (Stmt Action)} {regions : List (List (Stmt Action))}
    (division : Division [] (stmt :: rest) regions kept)
    (only : lost ⊆ [.regionStart, .regionEnd]) (stays : Stmt.StaysAs lost above original stmt) :
    Division above (original :: rest) regions kept := by
  generalize hstmts : stmt :: rest = stmts at division
  cases division with
  | nil => cases hstmts
  | stay starts' only' stays' later =>
      cases hstmts
      exact .stay (List.mem_append_left _ starts') (List.append_subset.mpr ⟨only', only⟩)
        (stays'.trans stays) later
  | @region _ interval region later regions kept nonempty same hlater =>
      cases interval with
      | nil => contradiction
      | cons first more =>
          obtain ⟨rfl, rfl⟩ := List.cons.inj hstmts
          cases same with
          | cons hfirst hmore =>
              refine .region (List.cons_ne_nil original more)
                (.cons (hfirst.trans stays.toSameAs) hmore) (hlater.mono ?_)
              rw [Stmt.comments_cons, Stmt.comments_cons, ← List.append_assoc]
              exact stays.comments.append (.of_sublist (.refl _))

end Division

/-- A start marker that is dropped is all that its statement loses. -/
theorem staysAs_openedAt (stmt : Stmt Action) :
    Stmt.StaysAs [.regionStart] [] stmt (openedAt stmt) := by
  have hcarried := stmt.not_mem_among_detach .regionStart
  obtain ⟨carried, left, hdetach, hbefore⟩ := stmt.detach_eq .regionStart
  rw [hdetach, Marker.mem_among] at hcarried
  obtain ⟨hentries, hspace⟩ :=
    Stmt.dropEntries_lowered Marker.regionStart.isOn 0 left stmt.space
  rw [openedAt, hdetach]
  refine ⟨⟨rfl, rfl, rfl⟩, rfl, hspace, [], _, rfl, .nil [], ?_⟩
  have hkept : (carried.filter fun entry => !Stmt.isLost [.regionStart] entry) = carried := by
    rw [List.filter_eq_self]
    intro entry member
    simpa [Stmt.isLost] using fun hon => hcarried ⟨entry, member, hon⟩
  rw [← hbefore, List.filter_append, hkept]
  refine List.rel_append (List.forall₂_refl carried) ?_
  simp only [Stmt.isLost, List.any_cons, List.any_nil, Bool.or_false]
  exact hentries

/-- A statement of a region with the one that it was: nothing joins behind it. -/
structure TakenFrom (stmt original : Stmt Action) : Prop extends Stmt.SameAs stmt original where
  after : List.Sublist stmt.after original.after

namespace TakenFrom

theorem refl (stmt : Stmt Action) : TakenFrom stmt stmt :=
  ⟨.refl stmt, .refl _⟩

theorem trans {stmt middle original : Stmt Action} (late : TakenFrom stmt middle)
    (early : TakenFrom middle original) : TakenFrom stmt original :=
  ⟨late.toSameAs.trans early.toSameAs, late.after.trans early.after⟩

/-- The statement at which a region opens loses comments above it only. -/
theorem opened (stmt : Stmt Action) :
    TakenFrom ((stmt.detach .regionStart).2.stripBefore .regionStart).1 stmt := by
  obtain ⟨carried, left, hdetach, -⟩ := stmt.detach_eq .regionStart
  rw [hdetach]
  exact ⟨⟨rfl, rfl, rfl⟩, .refl _⟩

theorem after_sublist {stmts originals : List (Stmt Action)}
    (taken : List.Forall₂ TakenFrom stmts originals) :
    List.Sublist (stmts.flatMap (·.after)) (originals.flatMap (·.after)) := by
  induction taken with
  | nil => exact .slnil
  | cons first rest ih => simpa using first.after.append ih

end TakenFrom

/-- The statements of a region are an interval of the statements from the one
at which it opens, and only an end marker goes from the statement behind it. -/
theorem close_interval {first : Stmt Action} {rest inside outside : List (Stmt Action)}
    (closed : close first rest = some (inside, outside)) :
    ∃ interval back, first :: rest = interval ++ back ∧ interval ≠ [] ∧
      List.Forall₂ TakenFrom inside interval ∧
      (outside = back ∨ ∃ next later, back = next :: later ∧
        outside = (next.stripBefore .regionEnd).1 :: later) := by
  have hsame (stmts : List (Stmt Action)) : List.Forall₂ TakenFrom stmts stmts :=
    List.forall₂_same.mpr fun stmt _ => .refl stmt
  rcases close_cases closed with
    ⟨next, later, -, hstmts, hinside, rfl⟩ | ⟨front, last, -, hstmts, rfl⟩
  · exact ⟨inside, next :: later, hstmts, hinside, hsame inside, .inr ⟨next, later, rfl, rfl⟩⟩
  · refine ⟨front ++ [last], outside, by simp [hstmts], by simp, ?_, .inl rfl⟩
    exact List.rel_append (hsame front)
      (.cons ⟨⟨rfl, rfl, rfl⟩, List.filter_sublist⟩ .nil)

/-- The comments that a cut moves stood above its first statement or behind one
of its statements. -/
theorem moved_sublist {cut : Cut Action} {first : Stmt Action} {more : List (Stmt Action)}
    (carried : List.Sublist cut.carried first.before)
    (taken : List.Forall₂ TakenFrom cut.removed (first :: more)) :
    List.Sublist cut.moved (Stmt.comments (first :: more)) := by
  have hmoved : List.Sublist cut.moved (cut.carried ++ cut.removed.flatMap (·.after)) := by
    refine List.Sublist.append (.refl _) ?_
    split
    · rename_i last hlast
      obtain ⟨front, hremoved⟩ := List.getLast?_eq_some_iff.mp hlast
      rw [hremoved, List.flatMap_append]
      refine List.Sublist.trans ?_ (List.sublist_append_right _ _)
      simp
    · exact List.nil_sublist _
  have hbehind := TakenFrom.after_sublist taken
  rw [List.flatMap_cons] at hbehind
  rw [Stmt.comments_cons, List.append_assoc]
  refine hmoved.trans (carried.append (hbehind.trans ?_))
  exact .append (.refl _) (Stmt.after_sublist_comments more)

/-- Removing regions divides the statements of a block: it takes intervals of
them away, in order, and hands on each interval as one region. -/
theorem remove_division (block : Block Action) :
    Division [] block.stmts (remove block).2 (remove block).1.stmts := by
  induction block using remove_induction with
  | nil opening closing => exact .nil []
  | keep opening stmt rest closing result shut ih =>
      exact .stay (by simp) (by simp) (Stmt.staysAs_of_not_hasBefore shut) ih
  | drop opening stmt rest closing result opened ih =>
      exact .stay (by simp) (by simp) (staysAs_openedAt stmt) ih
  | cut opening stmt rest closing inside outside result opened closed ih =>
      obtain ⟨interval, back, hstmts, nonempty, taken, houtside⟩ := close_interval closed
      obtain ⟨first, more, rfl⟩ := List.exists_cons_of_ne_nil nonempty
      obtain ⟨rfl, rfl⟩ := List.cons.inj hstmts
      have taken : List.Forall₂ TakenFrom inside (stmt :: more) := by
        cases taken with
        | cons hfirst hmore => exact .cons (hfirst.trans (.opened stmt)) hmore
      have hmoved : StemFrom (Stmt.comments (stmt :: more))
          (Cut.mk [] inside (stmt.detach .regionStart).1 outside).moved := by
        obtain ⟨carried, left, hdetach, hbefore⟩ := stmt.detach_eq .regionStart
        refine .of_sublist (moved_sublist ?_ taken)
        rw [hdetach, ← hbefore]
        exact List.sublist_append_left carried left
      refine .region (List.cons_ne_nil stmt more) (taken.imp fun _ _ => TakenFrom.toSameAs) ?_
      rcases houtside with rfl | ⟨next, later, rfl, rfl⟩
      · cases outside with
        | nil => exact ih.mono (.nil _)
        | cons next later =>
            exact ih.replaceFirst (List.nil_subset _) ((Stmt.StaysAs.refl next).attach hmoved)
      · exact ih.replaceFirst (by simp) ((next.staysAs_stripBefore .regionEnd).attach hmoved)

end Region

end Deinstrument
