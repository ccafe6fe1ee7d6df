import Deinstrument.Proofs.Filling
import Deinstrument.Proofs.Notes

/-!
# Sequences of plain statements and regions

Removing the regions of a block is one walk over its statements, so what is left
of the comments can be read off the segments one by one. Above a region nothing
is lost. Behind its end marker a comment is left if a line break stands in front
of it. In a block that is read this is so for the first comment behind the
marker, and for each one that follows a line comment; a comment on the line of a
block comment is lost.
-/

namespace Deinstrument

open Comment (notes above below)

namespace Comment

/-! ## Line comments of a block that is read -/

/-- A comment can stand behind another one: if that is a line comment, it has come
to an end. -/
def Breaks (entry next : Text) : Prop :=
  isLine entry = true → Text.opensLine next = true

/-- What stands behind a line comment is empty or starts with a line break. -/
def EndsLine (rest : Text) : Prop :=
  rest = [] ∨ ∃ later, rest = '\n' :: later

theorem endsLine_drop_lineLength (text : Text) : EndsLine (text.drop (lineLength text)) := by
  induction text with
  | nil => exact .inl rfl
  | cons first rest ih =>
      by_cases hbreak : first = '\n'
      · exact .inr ⟨rest, by simp [lineLength, hbreak]⟩
      · have hlength : lineLength (first :: rest) = lineLength rest + 1 := by
          simp [lineLength, hbreak]
        rw [hlength, List.drop_succ_cons]
        exact ih

/-- There is no comment on a line that has come to an end. -/
theorem EndsLine.inlineEntries_eq {rest : Text} (ends : EndsLine rest) (fuel : Nat) :
    inlineEntries fuel rest = ([], rest) := by
  cases fuel with
  | zero => rfl
  | succ fuel => rcases ends with rfl | ⟨later, rfl⟩ <;> rfl

/-- A text that starts with two slashes is cut behind a line comment. -/
theorem endsLine_drop {text : Text} (slashes : ['/', '/'] <+: text) {length : Nat}
    (found : length? text = some length) : EndsLine (text.drop length) := by
  obtain ⟨rest, rfl⟩ := slashes
  obtain rfl : lineLength ('/' :: '/' :: rest) = length := Option.some_inj.mp found
  exact endsLine_drop_lineLength _

/-- No comment starts in an entry, not even one that reaches into the text behind
it. -/
def Silent (entry text : Text) : Prop :=
  ∀ back, back <:+ entry → back ≠ [] → length? (back ++ text) = none

theorem silent_nil (text : Text) : Silent [] text := by
  intro back suffix nonempty
  exact absurd (List.suffix_nil.mp suffix) nonempty

theorem Silent.concat {entry rest : Text} {first : Char} (silent : Silent entry (first :: rest))
    (none : length? (first :: rest) = none) : Silent (entry ++ [first]) rest := by
  intro back suffix nonempty
  rcases List.suffix_concat_iff.mp suffix with rfl | ⟨shorter, rfl, hsuffix⟩
  · exact absurd rfl nonempty
  · rw [List.append_assoc, List.singleton_append]
    by_cases hempty : shorter = []
    · rw [hempty]
      exact none
    · exact silent shorter hsuffix hempty

theorem silent_takeWhile_isInline (text more : Text) : Silent (text.takeWhile isInline) more := by
  intro back suffix nonempty
  obtain ⟨first, later, rfl⟩ := List.exists_cons_of_ne_nil nonempty
  have hinline : isInline first = true :=
    List.mem_takeWhile_imp (suffix.subset List.mem_cons_self)
  rw [Option.eq_none_iff_forall_ne_some]
  intro length found
  obtain ⟨second, rest, hslash⟩ := exists_cons_of_length? found
  rw [(List.cons_eq_cons.mp hslash).1] at hinline
  cases hinline

/-- The body of a shorter text is in front of the body of a longer one. -/
theorem body_prefix_append (entry more : Text) : body entry <+: body (entry ++ more) := by
  simp only [body, List.dropWhile_append]
  split
  · rename_i hempty
    rw [List.isEmpty_iff.mp hempty]
    exact List.nil_prefix
  · exact List.prefix_append _ _

/-- A line comment starts where its text is cut. -/
theorem Silent.slashes {entry text : Text} {length : Nat} (silent : Silent entry text)
    (found : length? text = some length) (line : isLine (entry ++ text.take length) = true) :
    ['/', '/'] <+: text := by
  have hbody : body (entry ++ text) = entry.dropWhile isSeparator ++ text := by
    obtain ⟨second, more, rfl⟩ := exists_cons_of_length? found
    have hstops : ('/' :: second :: more).dropWhile isSeparator = '/' :: second :: more := by
      simp [isSeparator, Text.isBlank]
    rw [show body (entry ++ '/' :: second :: more) = List.dropWhile isSeparator _ from rfl,
      List.dropWhile_append, hstops]
    split
    · rename_i hempty
      rw [List.isEmpty_iff.mp hempty, List.nil_append]
    · rfl
  have hslashes : ['/', '/'] <+: entry.dropWhile isSeparator ++ text := by
    have hshorter := body_prefix_append (entry ++ text.take length) (text.drop length)
    rw [List.append_assoc, List.take_append_drop, hbody] at hshorter
    exact (List.isPrefixOf_iff_prefix.mp line).trans hshorter
  by_cases hback : entry.dropWhile isSeparator = []
  · rwa [hback] at hslashes
  · have hnone := silent _ (List.dropWhile_suffix _) hback
    obtain ⟨rest, hrest⟩ := hslashes
    rw [← hrest] at hnone
    cases hnone

/-- The first entry of a text that starts with a line break. -/
theorem opensLine_leadingEntries (fuel : Nat) (entry text : Text) :
    ∀ next ∈ (leadingEntries fuel ('\n' :: entry) text).entries.head?,
      Text.opensLine next = true := by
  induction fuel generalizing entry text with
  | zero => simp [leadingEntries]
  | succ fuel ih =>
      simp only [leadingEntries]
      split
      · simp [Text.opensLine, Text.isBlank]
      · split
        · simp
        · exact ih _ _

theorem EndsLine.opensLine_leadingEntries {rest : Text} (ends : EndsLine rest) (fuel : Nat) :
    ∀ next ∈ (leadingEntries fuel [] rest).entries.head?, Text.opensLine next = true := by
  cases fuel with
  | zero => simp [leadingEntries]
  | succ fuel =>
      rcases ends with rfl | ⟨later, rfl⟩
      · simp [leadingEntries, length?]
      · exact Comment.opensLine_leadingEntries fuel [] later

/-- Line comments in front of a statement end before the next comment. -/
theorem isChain_leadingEntries (fuel : Nat) {entry text : Text} (silent : Silent entry text) :
    (leadingEntries fuel entry text).entries.IsChain Breaks := by
  induction fuel generalizing entry text with
  | zero => exact .nil
  | succ fuel ih =>
      cases found : length? text with
      | some length =>
          simp only [leadingEntries, found]
          refine (ih (silent_nil _)).cons ?_
          intro next hnext line
          have hends := endsLine_drop (silent.slashes found line) found
          exact hends.opensLine_leadingEntries fuel next hnext
      | none =>
          cases text with
          | nil => simp [leadingEntries, found]
          | cons first rest =>
              simp only [leadingEntries, found]
              exact ih (silent.concat found)

/-- Line comments behind a statement end before the next comment, and before what
follows the comments behind the statement. -/
theorem isChain_inlineEntries_append (fuel : Nat) (text : Text) {later : List Text}
    (chain : later.IsChain Breaks)
    (opens : EndsLine (inlineEntries fuel text).2 →
      ∀ next ∈ later.head?, Text.opensLine next = true) :
    ((inlineEntries fuel text).1 ++ later).IsChain Breaks := by
  induction fuel generalizing text with
  | zero => exact chain
  | succ fuel ih =>
      cases found : length? (text.dropWhile isInline) with
      | none => simpa [inlineEntries, found] using chain
      | some length =>
          simp only [inlineEntries, found] at opens ⊢
          refine (ih _ opens).cons ?_
          intro next hnext line
          have hends := endsLine_drop
            ((silent_takeWhile_isInline text _).slashes found line) found
          rw [hends.inlineEntries_eq] at hnext opens
          exact opens hends next hnext

/-- Line comments in front of a statement end before the next comment. -/
theorem isChain_splitLeading (text : Text) : (splitLeading text).entries.IsChain Breaks :=
  isChain_leadingEntries (text.length + 1) (silent_nil text)

theorem isChain_splitTrailing (gap : Text) : (splitTrailing gap).entries.IsChain Breaks := by
  have hentries := isChain_inlineEntries_append (takeTerminator gap).2.length
    (takeTerminator gap).2 .nil (by simp)
  rwa [List.append_nil] at hentries

theorem isChain_splitTrailing_splitLeading (gap : Text) :
    ((splitTrailing gap).entries ++
      (splitLeading (splitTrailing gap).rest).entries).IsChain Breaks := by
  apply isChain_inlineEntries_append _ _ (isChain_splitLeading _)
  intro ends
  exact ends.opensLine_leadingEntries _

end Comment

namespace Code

/-- In a block that is read a comment behind a statement ends before the next one. -/
theorem isChain_after_statements {items : List (Spaced Go.Node)} (pending : Text) :
    ∀ stmt ∈ (statements pending items).1, stmt.after.IsChain Comment.Breaks := by
  induction items generalizing pending with
  | nil => simp [statements]
  | cons item rest ih =>
      obtain ⟨node, gap⟩ := item
      cases rest with
      | nil =>
          rw [statements, List.forall_mem_singleton]
          exact Comment.isChain_splitTrailing_splitLeading gap.dropLast
      | cons next later =>
          simp only [statements, List.forall_mem_cons]
          exact ⟨Comment.isChain_splitTrailing gap, ih _⟩

theorem isChain_after_block {node : Go.Node} {body : Block Action}
    (built : block node = some body) : ∀ stmt ∈ body.stmts, stmt.after.IsChain Comment.Breaks := by
  obtain ⟨kind, line, lead, items⟩ := node
  unfold block at built
  split at built
  · split at built <;> cases built
    exact List.forall_mem_nil _
  · split at built <;> cases built
    exact isChain_after_statements _
  · cases built

end Code

namespace Region

variable {Action : Type}

/-! ## What is left -/

/-- The comments behind the end marker of a region, where that stands behind its
last statement. -/
def behindEnd : Segment Action → List Text
  | .marked _ first more true => below .regionEnd (first.behindLast more)
  | _ => []

/-- The notes of a segment that stand outside of regions: those of a plain statement
behind the end marker of the region in front, those between such a marker and
the start marker of a region, and those behind the end marker of a region. -/
def outsideOf : Segment Action → List Text
  | .plain stmt => notes (below .regionEnd stmt.before ++ stmt.after)
  | .marked shape first more behind =>
      notes (below .regionEnd (above .regionStart first.before) ++
        behindEnd (.marked shape first more behind))

/-- The notes of several segments that stand outside of regions. -/
def outside (segments : List (Segment Action)) : List Text :=
  segments.flatMap outsideOf

/-- The notes of a segment that are left when regions are removed: those of a plain
statement, and those of a region that stand above its start marker, or on lines
of their own behind its last statement. -/
def leftOf : Segment Action → List Text
  | .plain stmt => notes (stmt.before ++ stmt.after)
  | .marked _ first more _ =>
      notes (above .regionStart first.before ++ (first.behindLast more).filter Cut.isOwnLine)

def leftOver (segments : List (Segment Action)) : List Text :=
  segments.flatMap leftOf

/-! ## Comments behind the end marker -/

/-- No comment stands on the line of a block comment in front of it. -/
def Apart (entries : List Text) : Prop :=
  entries.IsChain fun entry next => Comment.isLine entry = false → Cut.isOwnLine next = true

instance (entries : List Text) : Decidable (Apart entries) :=
  inferInstanceAs (Decidable (List.IsChain _ entries))

/-- From a comment on a line of its own on, all comments are on lines of their own,
if none stands on the line of a block comment. -/
theorem Apart.isOwnLine {entries : List Text} (apart : Apart entries)
    (breaks : entries.IsChain Comment.Breaks)
    (first : ∀ next ∈ entries.head?, Cut.isOwnLine next = true) :
    ∀ entry ∈ entries, Cut.isOwnLine entry = true := by
  induction entries with
  | nil => exact List.forall_mem_nil _
  | cons entry rest ih =>
      rw [Apart, List.isChain_cons] at apart
      rw [List.isChain_cons] at breaks
      refine List.forall_mem_cons.mpr ⟨first entry rfl, ih apart.2 breaks.2 ?_⟩
      intro next hnext
      cases hline : Comment.isLine entry with
      | false => exact apart.1 next hnext hline
      | true => exact Cut.isOwnLine_of_opensLine (breaks.1 next hnext hline)

/-- Comments behind the last marker of a kind are left if none stands on the line of
a block comment: the marker itself is a line comment. -/
theorem Apart.below_sublist {marker : Marker} {entries : List Text}
    (apart : Apart (below marker entries)) (breaks : entries.IsChain Comment.Breaks)
    (present : marker ∈ Marker.among entries) :
    List.Sublist (below marker entries) (entries.filter Cut.isOwnLine) := by
  obtain ⟨front, entry, hentries, hkind⟩ := Comment.exists_eq_below present
  rw [hentries] at breaks
  obtain ⟨hfirst, hbelow⟩ := List.isChain_cons.mp breaks.right_of_append
  have hline := Comment.isLine_of_isOn (Marker.classify_eq_some_iff.mp hkind)
  have hown := apart.isOwnLine hbelow fun next hnext =>
    Cut.isOwnLine_of_opensLine (hfirst next hnext hline)
  rw [← List.filter_eq_self.mpr hown]
  exact (Comment.below_sublist marker entries).filter _

/-- Notes outside of regions are left over, if no comment behind the end marker of a
region stands on the line of a block comment. -/
theorem outside_sublist_leftOver {above : List Marker} {segments : List (Segment Action)}
    (inRow : Segment.inRow .region above segments = true)
    (breaks : ∀ stmt ∈ Segment.allStmts segments, stmt.after.IsChain Comment.Breaks)
    (apart : ∀ segment ∈ segments, Apart (behindEnd segment)) :
    List.Sublist (outside segments) (leftOver segments) := by
  induction segments generalizing above with
  | nil => exact .slnil
  | cons segment rest ih =>
      rw [Segment.allStmts_cons, List.forall_mem_append] at breaks
      rw [List.forall_mem_cons] at apart
      cases segment with
      | plain stmt =>
          obtain ⟨-, -, hrest⟩ := Segment.inRow_plain.mp inRow
          refine List.Sublist.append ?_ (ih hrest breaks.2 apart.2)
          exact Comment.notes_sublist ((Comment.below_sublist _ _).append (.refl _))
      | marked shape first more behind =>
          obtain ⟨-, -, hcloses, hrest⟩ := Segment.inRow_marked.mp inRow
          refine List.Sublist.append ?_ (ih hrest breaks.2 apart.2)
          refine Comment.notes_sublist ((Comment.below_sublist _ _).append ?_)
          cases behind with
          | false => exact List.nil_sublist _
          | true =>
              have hstop : Shape.region.stop ∈
                  Shape.region.own (Marker.among (first.behindLast more)) := by
                rw [Segment.own_behindLast hcloses]
                exact List.mem_singleton_self _
              obtain ⟨last, hlast, hbehind⟩ := Stmt.exists_behindLast first more
              refine Apart.below_sublist apart.1 ?_ (Shape.stop_mem_own.mp hstop)
              rw [hbehind]
              exact breaks.1 last hlast

/-! ## Cutting a region out -/

/-- A region ends behind its last statement, or with what follows it; the comments
that stay behind the last statement are the same. -/
theorem closeAmong_closesWith {stmt : Stmt Action} {more : List (Stmt Action)} {behind : Bool}
    (absent : stmt.hasBefore .regionEnd = false)
    (closes : Segment.closesWith .region (if behind then [.regionEnd] else []) stmt more = true)
    (back : List (Stmt Action)) :
    ∃ first later,
      (first.behindLast later).filter Cut.stays = (stmt.behindLast more).filter Cut.stays ∧
      closeAmong (stmt :: (more ++ back)) =
        if behind then some (first :: later, back)
        else (closeAmong back).map fun found => (first :: later ++ found.1, found.2) := by
  induction more generalizing stmt with
  | nil =>
      have hafter : stmt.hasAfter Shape.region.stop = behind := by
        rw [Stmt.hasAfter_stop, Segment.closesWith_nil.mp closes]
        cases behind <;> rfl
      rw [List.nil_append, closeAmong_cons, absent,
        show stmt.hasAfter .regionEnd = behind from hafter]
      cases behind with
      | true =>
          exact ⟨(stmt.stripAfter .regionEnd).1, [], Stmt.filter_stays_stripAfter stmt .regionEnd,
            rfl⟩
      | false => exact ⟨stmt, [], rfl, rfl⟩
  | cons next later ih =>
      obtain ⟨hafter, hnext, hlater⟩ := Segment.closesWith_cons.mp closes
      have hend : stmt.hasAfter .regionEnd = false := (Stmt.hasAfter_of_own_nil hafter :)
      obtain ⟨first, behindFirst, hstays, hclosed⟩ :=
        ih (Stmt.hasBefore_of_own_nil hnext).2 hlater
      refine ⟨stmt, first :: behindFirst, hstays, ?_⟩
      rw [closeAmong_cons, absent, hend, List.cons_append, hclosed]
      cases behind with
      | true => rfl
      | false => simp [Function.comp_def]

/-- The end marker above the first statement of a sequence ends the region in front
of it. -/
theorem closeAmong_inRow {segments : List (Segment Action)}
    (inRow : Segment.inRow .region [.regionEnd] segments = true) :
    closeAmong (Segment.allStmts segments) = some ([], Segment.allStmts
      (segments.modifyHead (Segment.mapFirst fun stmt => (stmt.stripBefore .regionEnd).1))) := by
  cases segments with
  | nil => cases inRow
  | cons segment rest =>
      cases segment with
      | plain stmt =>
          obtain ⟨hbefore, -⟩ := Segment.inRow_plain.mp inRow
          have hends : stmt.hasBefore .regionEnd = true := (Stmt.hasBefore_of_own_stop hbefore).2
          rw [Segment.allStmts_cons, Segment.stmts, List.singleton_append, closeAmong_cons, hends]
          rfl
      | marked shape first more behind =>
          obtain ⟨-, hbefore, -⟩ := Segment.inRow_marked.mp inRow
          have hends : first.hasBefore Shape.region.stop = true := by
            rw [Stmt.hasBefore_stop, hbefore]
            rfl
          rw [Segment.allStmts_cons, Segment.stmts, List.cons_append, closeAmong_cons,
            show first.hasBefore .regionEnd = true from hends]
          rfl

/-- What a segment leaves when notes are added above its first statement. -/
theorem leftOf_mapFirst (change : Stmt Action → Stmt Action) (added : List Text)
    (keeps : ∀ stmt, (change stmt).after = stmt.after)
    (adds : ∀ stmt, notes (change stmt).before = added ++ notes stmt.before)
    (addsAbove : ∀ stmt, notes (above .regionStart (change stmt).before) =
      added ++ notes (above .regionStart stmt.before)) (segment : Segment Action) :
    leftOf (segment.mapFirst change) = added ++ leftOf segment := by
  cases segment with
  | plain stmt => simp only [Segment.mapFirst, leftOf, Comment.notes_append, adds, keeps,
      List.append_assoc]
  | marked shape first more behind =>
      simp only [Segment.mapFirst, leftOf, Comment.notes_append, addsAbove,
        Stmt.behindLast_congr (keeps first), List.append_assoc]

theorem leftOver_stripStop (segments : List (Segment Action)) :
    leftOver (segments.modifyHead
      (Segment.mapFirst fun stmt => (stmt.stripBefore .regionEnd).1)) = leftOver segments := by
  cases segments with
  | nil => rfl
  | cons segment rest =>
      have hleft := leftOf_mapFirst (fun stmt => (stmt.stripBefore .regionEnd).1) []
        (fun _ => rfl) (fun stmt => Stmt.notes_stripBefore stmt .regionEnd)
        (fun stmt => Stmt.notes_above_dropEntries (by decide) 0 stmt.before stmt.space) segment
      rw [List.modifyHead_cons, leftOver, List.flatMap_cons, hleft]
      rfl

/-- Comments that are put above the first statement of a sequence are left over. -/
theorem leftOver_attach {moved : List Text} (absent : Marker.regionStart ∉ Marker.among moved)
    (segments : List (Segment Action)) :
    leftOver (segments.modifyHead (Segment.mapFirst (Stmt.attach moved))) ++
      notes (if segments.isEmpty then moved else []) = notes moved ++ leftOver segments := by
  cases segments with
  | nil => simp [leftOver]
  | cons segment rest =>
      have hleft := leftOf_mapFirst (Stmt.attach moved) (notes moved) (fun _ => rfl)
        (Stmt.notes_attach moved) (Stmt.notes_above_attach absent) segment
      rw [List.modifyHead_cons, leftOver, List.flatMap_cons, hleft]
      simp [leftOver]

/-- A region closes in front of the statements of what follows it. -/
theorem exists_closeAmong {opened : Stmt Action} {more : List (Stmt Action)} {behind : Bool}
    {rest : List (Segment Action)} (absent : opened.hasBefore .regionEnd = false)
    (closes : Segment.closesWith .region (if behind then [.regionEnd] else []) opened more = true)
    (inRow : Segment.inRow .region (if behind then [] else [.regionEnd]) rest = true) :
    ∃ first later next,
      (first.behindLast later).filter Cut.stays = (opened.behindLast more).filter Cut.stays ∧
      closeAmong (opened :: (more ++ Segment.allStmts rest)) =
        some (first :: later, Segment.allStmts next) ∧
      next.length = rest.length ∧ Segment.inRow .region [] next = true ∧
      leftOver next = leftOver rest := by
  obtain ⟨first, later, hstays, hclosed⟩ :=
    closeAmong_closesWith absent closes (Segment.allStmts rest)
  cases behind with
  | true => exact ⟨first, later, rest, hstays, hclosed, rfl, inRow, rfl⟩
  | false =>
      rw [closeAmong_inRow inRow] at hclosed
      refine ⟨first, later,
        rest.modifyHead (Segment.mapFirst fun stmt => (stmt.stripBefore .regionEnd).1), hstays, ?_,
        List.length_modifyHead, Segment.inRow_stripStop inRow, leftOver_stripStop rest⟩
      simpa using hclosed

/-- The statement at which a region opens has no marker of a region above it any
more. -/
theorem own_opened {first : Stmt Action}
    (starts : Shape.region.own first.marksBefore = [.regionStart]) :
    let opened := ((first.detach .regionStart).2.stripBefore .regionStart).1
    Shape.region.own opened.marksBefore = [] ∧ opened.after = first.after := by
  intro opened
  have hdetached : Shape.region.own (first.detach .regionStart).2.marksBefore = [.regionStart] :=
    (Stmt.own_detach starts).2
  constructor
  · rw [Stmt.marksBefore_stripBefore, Shape.own_filter, hdetached]
    rfl
  · obtain ⟨carried, left, hdetach, -⟩ := first.detach_eq .regionStart
    simp only [opened, hdetach]
    rfl

/-- A region at the front of a sequence is cut out, and what it leaves goes to what
follows. -/
theorem exists_remove_marked {first : Stmt Action} {more : List (Stmt Action)} {behind : Bool}
    {rest : List (Segment Action)}
    (inRow : Segment.inRow .region [] (.marked .region first more behind :: rest) = true)
    (opening closing : Text) :
    ∃ left added, left.length = rest.length ∧ Segment.inRow .region [] left = true ∧
      leftOver left ++ notes added = leftOver (.marked .region first more behind :: rest) ∧
      (remove ⟨opening, Segment.allStmts (.marked .region first more behind :: rest), closing⟩).1 =
        (remove ⟨opening, Segment.allStmts left, added.flatten ++ closing⟩).1 := by
  obtain ⟨-, starts, hcloses, hrest⟩ := Segment.inRow_marked.mp inRow
  obtain ⟨hmarks, hafter⟩ := own_opened starts
  have absent := (Stmt.hasBefore_of_own_nil hmarks).2
  rw [← Segment.closesWith_congr hafter] at hcloses
  obtain ⟨within, inside, next, hstays, hclosed, hlength, hnext, hover⟩ :=
    exists_closeAmong absent hcloses hrest
  rw [← close_eq_closeAmong absent] at hclosed
  have present : first.hasBefore .regionStart = true := (Stmt.hasBefore_of_own_start starts).1
  have hremove := remove_cons_of_close present hclosed opening closing
  simp only [Segment.addAbove_allStmts] at hremove
  generalize hmoved : (Cut.mk [] (within :: inside) (first.detach .regionStart).1
    (Segment.allStmts next)).moved = moved at hremove
  have hmarkless : Shape.region.own (Marker.among moved) = [] := by
    rw [← hmoved, Cut.among_moved]
    exact (Stmt.own_detach starts).1
  have hnotes : notes moved = leftOf (.marked .region first more behind) := by
    rw [← hmoved, Stmt.moved_eq_behindLast, hstays, Stmt.behindLast_congr hafter,
      Comment.notes_append, Comment.notes_filter_stays, Stmt.detach_fst present,
      ← Comment.notes_append]
    rfl
  refine ⟨next.modifyHead (Segment.mapFirst (Stmt.attach moved)),
    if next.isEmpty then moved else [], List.length_modifyHead.trans hlength,
    Segment.inRow_attach hmarkless hnext, ?_, ?_⟩
  · rw [leftOver_attach (Shape.not_mem_of_own_nil hmarkless).1, hnotes, hover]
    rfl
  · rw [Segment.allStmts_cons, Segment.stmts, List.cons_append, hremove]

/-- The walk over a sequence of plain statements and regions keeps the notes that
are to be left over. -/
theorem exists_notes_remove {segments : List (Segment Action)}
    (inRow : Segment.inRow .region [] segments = true) (block : Block Action)
    (stmts_eq : block.stmts = Segment.allStmts segments) :
    ∃ added, (remove block).1.closing = added.flatten ++ block.closing ∧
      notes (Stmt.comments (remove block).1.stmts ++ added) = leftOver segments := by
  -- Each region that is cut out leaves fewer segments.
  induction hlength : segments.length using Nat.strongRecOn generalizing segments block with
  | ind length ih =>
      obtain ⟨opening, stmts, closing⟩ := block
      obtain rfl : stmts = Segment.allStmts segments := stmts_eq
      cases segments with
      | nil => exact ⟨[], rfl, rfl⟩
      | cons segment rest =>
          cases segment with
          | plain stmt =>
              obtain ⟨hbefore, -, hrest⟩ := Segment.inRow_plain.mp inRow
              have shut : stmt.hasBefore .regionStart = false :=
                (Stmt.hasBefore_of_own_nil hbefore).1
              obtain ⟨added, hclosing, hnotes⟩ := ih rest.length (by simp [← hlength]) hrest
                ⟨opening, Segment.allStmts rest, closing⟩ rfl rfl
              rw [Segment.allStmts_cons, Segment.stmts, List.singleton_append,
                remove_cons_of_not_hasBefore shut]
              refine ⟨added, hclosing, ?_⟩
              rw [withFront, Stmt.comments_cons, List.append_assoc, Comment.notes_append, hnotes]
              rfl
          | marked shape first more behind =>
              obtain ⟨rfl, -⟩ := Segment.inRow_marked.mp inRow
              obtain ⟨left, moved, hless, hleft, hover, hremove⟩ :=
                exists_remove_marked inRow opening closing
              obtain ⟨added, hclosing, hnotes⟩ := ih left.length (by simp [← hlength, hless]) hleft
                ⟨opening, Segment.allStmts left, moved.flatten ++ closing⟩ rfl rfl
              rw [hremove]
              refine ⟨added ++ moved, ?_, ?_⟩
              · rw [hclosing, List.flatten_append, List.append_assoc]
              · rw [← List.append_assoc, Comment.notes_append, hnotes, hover]

end Region

/-! ## Blocks that are read -/

namespace Region

/-- The notes that removing the regions of a block leaves on its statements and in
front of its closing text. In a block that is read all notes outside of regions
are among them, in order, if no comment behind the end marker of a region stands
on the line of a block comment. -/
theorem remove_notes_of_block {node : Go.Node} {body : Block Action}
    (built : Code.block node = some body) {segments : List (Segment Action)}
    (stmts_eq : body.stmts = Segment.allStmts segments)
    (inRow : Segment.inRow .region [] segments = true) :
    let removed := (remove body).1
    ∃ added, removed.closing = added.flatten ++ body.closing ∧
      notes (Stmt.comments removed.stmts ++ added) = leftOver segments ∧
      ((∀ segment ∈ segments, Apart (behindEnd segment)) →
        List.Sublist (outside segments) (notes (Stmt.comments removed.stmts ++ added))) := by
  intro removed
  obtain ⟨added, hclosing, hnotes⟩ := exists_notes_remove inRow body stmts_eq
  refine ⟨added, hclosing, hnotes, ?_⟩
  intro apart
  rw [hnotes]
  refine outside_sublist_leftOver inRow ?_ apart
  rw [← stmts_eq]
  exact Code.isChain_after_block built

/-- A block of a statement and two regions, with comments above and between them, and
comments between the end marker of the second region and the closing brace. -/
def regionsNode (comments : Text) : Go.Node :=
  let stmt (text : String) (line : Nat) (gap : Text) : Spaced Go.Node :=
    ⟨.mk .incStatement line ⟨text.toList, []⟩, gap⟩
  .mk .block 3 ⟨"\x7b\n\t// one\n\t".toList,
    [stmt "a++" 5 "\n\t//dd:startwrap\n\t".toList,
      stmt "b++" 7 "\n\t//dd:endwrap\n\t// two\n\t//dd:startwrap\n\t".toList,
      stmt "c++" 11 (" //dd:endwrap\n\t".toList ++ comments ++ "\n\x7d".toList)]⟩

def regionsSegments (comments : List String) : List (Segment Action) :=
  let stmt (before : List String) (text : String) := Stmt.ofStrings before (.verbatim text.toList)
  [.plain (stmt ["\n\t// one"] "a++" [] 5),
    .marked .region (stmt ["\n\t//dd:startwrap"] "b++" [] 7) [] false,
    .marked .region (stmt ["\n\t//dd:endwrap", "\n\t// two", "\n\t//dd:startwrap"] "c++"
      (" //dd:endwrap" :: comments) 11) [] true]

theorem remove_notes_of_block_regionsNode :
    let node := regionsNode "// three\n\t/* four */".toList
    let segments := regionsSegments ["\n\t// three", "\n\t/* four */"]
    ∃ body, Code.block node = some body ∧ body.stmts = Segment.allStmts segments ∧
      Segment.inRow .region [] segments = true ∧
      (∀ segment ∈ segments, Apart (behindEnd segment)) ∧
      ∃ added, (remove body).1.closing = added.flatten ++ body.closing ∧
        List.Sublist ["// one".toList, "// two".toList, "// three".toList, "/* four */".toList]
          (notes (Stmt.comments (remove body).1.stmts ++ added)) := by
  intro node segments
  have built : Code.block node = some ⟨['{'], Segment.allStmts segments, "\n\x7d".toList⟩ := rfl
  have inRow : Segment.inRow .region [] segments = true := by decide
  have apart : ∀ segment ∈ segments, Apart (behindEnd segment) := by decide
  have houtside : outside segments =
      ["// one".toList, "// two".toList, "// three".toList, "/* four */".toList] := by decide
  obtain ⟨added, hclosing, -, survive⟩ := remove_notes_of_block built rfl inRow
  exact ⟨_, built, rfl, inRow, apart, added, hclosing, houtside ▸ survive apart⟩

/-- A comment on the line of a block comment behind the end marker is gone, from the
statements and from the closing text. -/
theorem remove_notes_of_crowded_block :
    let node := regionsNode "/* x */ /* y */".toList
    let segments := regionsSegments ["\n\t/* x */", " /* y */"]
    ∃ body, Code.block node = some body ∧ body.stmts = Segment.allStmts segments ∧
      Segment.inRow .region [] segments = true ∧ "/* y */".toList ∈ outside segments ∧
      Stmt.comments (remove body).1.stmts = ["\n\t// one".toList] ∧
      (remove body).1.closing = "\n\t// two\n\t/* x */\n\x7d".toList := by
  refine ⟨⟨['{'], _, "\n\x7d".toList⟩, rfl, rfl, ?_, ?_, ?_, ?_⟩
  · decide
  · decide
  · decide
  · decide

end Region

end Deinstrument
