import Deinstrument.Proofs.Filling
import Deinstrument.Proofs.Marking
import Mathlib.Data.List.DropRight

/-!
# Blank lines of dropped markers

When the markers of a kind above a statement are dropped, the other comments
stay in their order, and paragraphs stay apart: the blank lines in front of a
dropped marker go to the comment behind it, or to the statement itself. A comment
that receives blank lines may be dropped in its turn and hands on what it received
with its own. In the end, each comment that stays and the space in front of the
statement have received the blank lines of the markers directly before them.
-/

namespace Deinstrument

theorem Text.length_splitOn (separator : Char) (text : Text) :
    (splitOn separator text).length = text.count separator + 1 := by
  fun_induction splitOn separator text with
  | case1 => rfl
  | case2 first rest same ih =>
      rw [beq_iff_eq.mp same, List.count_cons_self, List.length_cons, ih]
  | case3 first rest other none ih => exact absurd none (splitOn_ne_nil separator rest)
  | case4 first rest other next pieces split ih =>
      rw [split] at ih
      rw [List.count_cons_of_ne (fun same => other (beq_iff_eq.mpr same)), ← ih]
      rfl

namespace Comment

/-- The lines between the one above an entry and the one on which its comment
starts. -/
def linesAbove (entry : Text) : List Text :=
  (Text.splitOn '\n' (entry.takeWhile isSeparator)).tail.dropLast

theorem length_linesAbove (entry : Text) :
    (linesAbove entry).length = Text.breaks (entry.takeWhile isSeparator) - 1 := by
  simp [linesAbove, Text.length_splitOn, Text.breaks]

/-- An entry on lines of its own: it starts with a line break, and there are only
blanks in front of its comment. -/
structure StandsAlone (entry : Text) : Prop where
  opens : Stmt.startsLine entry = true
  blanks : ∀ character ∈ entry.takeWhile isSeparator, Text.isBlank character = true

instance (entry : Text) : Decidable (StandsAlone entry) :=
  decidable_of_iff (Stmt.startsLine entry = true ∧
      (entry.takeWhile isSeparator).all Text.isBlank = true)
    ⟨fun ⟨opens, blanks⟩ => ⟨opens, List.all_eq_true.mp blanks⟩,
      fun ⟨opens, blanks⟩ => ⟨opens, List.all_eq_true.mpr blanks⟩⟩

theorem StandsAlone.takeWhile_isBlank {entry : Text} (alone : StandsAlone entry) :
    entry.takeWhile Text.isBlank = entry.takeWhile isSeparator := by
  have hjoin := List.takeWhile_append_dropWhile (p := isSeparator) (l := entry)
  conv_lhs => rw [← hjoin]
  rw [List.takeWhile_append_of_pos alone.blanks]
  cases hrest : entry.dropWhile isSeparator with
  | nil => simp
  | cons first rest =>
      have hstops := List.head?_dropWhile_not isSeparator entry
      simp only [hrest, List.head?_cons, isSeparator, Bool.or_eq_false_iff] at hstops
      simp [hstops.1]

theorem StandsAlone.breaks_pos {entry : Text} (alone : StandsAlone entry) :
    0 < Text.breaks (entry.takeWhile isSeparator) := by
  rw [← alone.takeWhile_isBlank, Text.breaks, List.count_pos_iff]
  have hopens := alone.opens
  simp only [Stmt.startsLine, Text.startsWith, Bool.or_eq_true, List.isPrefixOf_iff_prefix]
    at hopens
  rcases hopens with ⟨rest, rfl⟩ | ⟨rest, rfl⟩
  · simp [Text.isBlank]
  · simp [Text.isBlank]

end Comment

open Comment (StandsAlone linesAbove)

namespace Stmt

theorem carry_of_startsLine {text : Text} (opens : startsLine text = true) (blank : Nat) :
    carry blank text = List.replicate blank '\n' ++ text :=
  if_pos opens

/-- An entry hands on the blank lines that it received and its own. -/
theorem blankLines_carry {entry : Text} (alone : StandsAlone entry) (blank : Nat) :
    blankLines (carry blank entry) = blank + (linesAbove entry).length := by
  have hblank : ∀ character ∈ List.replicate blank '\n', Text.isBlank character = true := by
    intro character member
    rw [List.eq_of_mem_replicate member]
    rfl
  have hpositive := alone.breaks_pos
  rw [carry_of_startsLine alone.opens, blankLines, List.takeWhile_append_of_pos hblank,
    alone.takeWhile_isBlank, Comment.length_linesAbove, Text.breaks, List.count_append,
    List.count_replicate_self, ← Text.breaks]
  omega

/-! ## Dropping one entry after the other -/

/-- The blank lines that are on their way behind some entries. -/
def arriving (drops : Text → Bool) : Nat → List Text → Nat
  | blank, [] => blank
  | blank, first :: rest =>
      arriving drops (if drops (Comment.body first) then blankLines (carry blank first) else 0) rest

/-- Dropping goes along the entries: what comes later depends on what came before
by the blank lines on their way only. -/
theorem dropEntries_append (drops : Text → Bool) (blank : Nat) (front back : List Text)
    (space : Text) :
    (dropEntries drops blank (front ++ back) space).1 =
      (dropEntries drops blank front []).1 ++
        (dropEntries drops (arriving drops blank front) back space).1 ∧
    (dropEntries drops blank (front ++ back) space).2.1 =
      (dropEntries drops (arriving drops blank front) back space).2.1 := by
  induction front generalizing blank with
  | nil => exact ⟨rfl, rfl⟩
  | cons first rest ih =>
      by_cases hdrops : drops (Comment.body first) = true
      · rw [List.cons_append, dropEntries_cons_drop hdrops, dropEntries_cons_drop hdrops, arriving,
          if_pos hdrops]
        exact ih _
      · obtain ⟨hentries, hspace⟩ := ih 0
        rw [List.cons_append, dropEntries_cons_keep hdrops, dropEntries_cons_keep hdrops, arriving,
          if_neg hdrops]
        exact ⟨congrArg _ hentries, hspace⟩

theorem arriving_concat (drops : Text → Bool) (blank : Nat) (front : List Text) (entry : Text) :
    arriving drops blank (front ++ [entry]) =
      if drops (Comment.body entry) then blankLines (carry (arriving drops blank front) entry)
      else 0 := by
  induction front generalizing blank with
  | nil => rfl
  | cons first rest ih => exact ih _

/-- Comments that stay keep their text. -/
theorem map_body_dropEntries (drops : Text → Bool) (blank : Nat) (entries : List Text)
    (space : Text) :
    (dropEntries drops blank entries space).1.map Comment.body =
      (entries.filter fun entry => !drops (Comment.body entry)).map Comment.body := by
  induction entries generalizing blank with
  | nil => rfl
  | cons first rest ih =>
      by_cases hdrops : drops (Comment.body first) = true
      · rw [dropEntries_cons_drop hdrops, List.filter_cons_of_neg (by simp [hdrops])]
        exact ih _
      · rw [dropEntries_cons_keep hdrops, List.filter_cons_of_pos (by simp [hdrops]), List.map_cons,
          List.map_cons, body_carry]
        exact congrArg _ (ih 0)

theorem length_dropEntries (drops : Text → Bool) (blank : Nat) (entries : List Text)
    (space : Text) :
    (dropEntries drops blank entries space).1.length =
      entries.countP fun entry => !drops (Comment.body entry) := by
  have hlength := congrArg List.length (map_body_dropEntries drops blank entries space)
  rwa [List.length_map, List.length_map, ← List.countP_eq_length_filter] at hlength

/-! ## Blank lines of the entries directly before -/

/-- The number of blank lines in front of the entries that go at the end of a list. -/
def heldLines (goes : Text → Bool) (entries : List Text) : Nat :=
  ((entries.rtakeWhile goes).map fun entry => (linesAbove entry).length).sum

theorem heldLines_concat (goes : Text → Bool) (front : List Text) (entry : Text) :
    heldLines goes (front ++ [entry]) =
      if goes entry then heldLines goes front + (linesAbove entry).length else 0 := by
  rw [heldLines, heldLines]
  split
  next hgoes =>
    rw [List.rtakeWhile_concat_pos goes front entry hgoes, List.map_append, List.sum_append,
      List.map_singleton, List.sum_singleton]
  next hstays =>
    rw [List.rtakeWhile_concat_neg goes front entry hstays]
    rfl

theorem arriving_eq_heldLines {drops : Text → Bool} {entries : List Text}
    (alone : ∀ entry ∈ entries, StandsAlone entry) :
    arriving drops 0 entries = heldLines (fun entry => drops (Comment.body entry)) entries := by
  induction entries using List.reverseRecOn with
  | nil => rfl
  | append_singleton front entry ih =>
      obtain ⟨hfront, hentry⟩ := List.forall_mem_append.mp alone
      rw [arriving_concat, heldLines_concat, ih hfront,
        blankLines_carry (List.forall_mem_singleton.mp hentry)]

/-- An entry that stays comes to the place that the entries before it leave, with the
blank lines of the dropped ones directly before it. -/
theorem getElem?_dropEntries {drops : Text → Bool} {front back : List Text} {entry : Text}
    (alone : ∀ other ∈ front ++ entry :: back, StandsAlone other)
    (stays : drops (Comment.body entry) = false) (space : Text) :
    (dropEntries drops 0 (front ++ entry :: back) space).1[
        front.countP fun other => !drops (Comment.body other)]? =
      some (List.replicate (heldLines (fun other => drops (Comment.body other)) front) '\n' ++
        entry) := by
  obtain ⟨hfront, hback⟩ := List.forall_mem_append.mp alone
  have hentry := hback entry List.mem_cons_self
  rw [(dropEntries_append drops 0 front (entry :: back) space).1,
    ← length_dropEntries drops 0 front [], List.getElem?_append_right (Nat.le_refl _), Nat.sub_self,
    dropEntries_cons_keep (by simp [stays]), arriving_eq_heldLines hfront,
    carry_of_startsLine hentry.opens]
  rfl

theorem space_dropEntries {drops : Text → Bool} {entries : List Text}
    (alone : ∀ entry ∈ entries, StandsAlone entry) {space : Text} (opens : startsLine space = true) :
    (dropEntries drops 0 entries space).2.1 =
      List.replicate (heldLines (fun entry => drops (Comment.body entry)) entries) '\n' ++
        space := by
  have hsplit := (dropEntries_append drops 0 entries [] space).2
  rw [List.append_nil, arriving_eq_heldLines alone] at hsplit
  rw [hsplit, ← carry_of_startsLine opens]
  rfl

end Stmt

/-! ## Markers above a statement -/

/-- Whether an entry is a marker of a kind. -/
def Marker.isKind (marker : Marker) (entry : Text) : Bool :=
  decide (classify entry = some marker)

theorem Marker.isOn_body (marker : Marker) :
    (fun entry => marker.isOn (Comment.body entry)) = marker.isKind :=
  funext marker.isOn_eq_decide

namespace Stmt

variable {Action : Type}

/-- Stripping the markers of a kind above a statement drops exactly these and counts
them; the other comments stay in order with the same text, and nothing else of the
statement but the space in front of it changes. If the comments and the statement
start on lines of their own, each comment that stays is its old text behind as many
line feeds as there were blank lines in front of the markers that went directly before
it, and so is the space. -/
theorem stripBefore_keeps_paragraphs (stmt : Stmt Action) (marker : Marker) :
    let stripped := (stmt.stripBefore marker).1
    (stmt.stripBefore marker).2 = stmt.before.countP marker.isKind ∧
    stripped.before.map Comment.body =
      (stmt.before.filter fun entry => !marker.isKind entry).map Comment.body ∧
    stripped.hasBefore marker = false ∧
    stripped = { stmt with before := stripped.before, space := stripped.space } ∧
    ((∀ entry ∈ stmt.before, StandsAlone entry) → startsLine stmt.space = true →
      (∀ front entry back, stmt.before = front ++ entry :: back → marker.isKind entry = false →
        stripped.before[front.countP fun other => !marker.isKind other]? =
          some (List.replicate (heldLines marker.isKind front) '\n' ++ entry)) ∧
      stripped.space =
        List.replicate (heldLines marker.isKind stmt.before) '\n' ++ stmt.space) := by
  have hkind := congrFun marker.isOn_body
  refine ⟨?_, ?_, ?_, rfl, fun alone opens => ⟨?_, ?_⟩⟩
  · rw [← marker.isOn_body]
    exact dropEntries_count marker.isOn 0 stmt.before stmt.space
  · simp only [← hkind]
    exact map_body_dropEntries marker.isOn 0 stmt.before stmt.space
  · rw [hasBefore_eq, marksBefore_stripBefore]
    simp
  · rintro front entry back hbefore stays
    simp only [← hkind, ← marker.isOn_body] at stays ⊢
    rw [hbefore] at alone
    have hentry := getElem?_dropEntries alone stays stmt.space
    rwa [← hbefore] at hentry
  · rw [← marker.isOn_body]
    exact space_dropEntries alone opens

/-- A statement below two runs of markers, the first of them with blank lines between
its markers. -/
def taggedStmt : Stmt Unit :=
  { before := ["\n\n\t//dd:instrumented".toList, "\n\n\n\t//dd:instrumented again".toList,
      "\n\t// note".toList, "\n\n\t//dd:instrumented".toList]
    space := "\n\t".toList, action := (), terminator := [], after := [], line := 1 }

theorem stripBefore_keeps_paragraphs_taggedStmt :
    (∀ entry ∈ taggedStmt.before, StandsAlone entry) ∧ startsLine taggedStmt.space = true ∧
    (taggedStmt.stripBefore .instrumented).2 = 3 ∧
    (taggedStmt.stripBefore .instrumented).1.before[0]? = some "\n\n\n\n\t// note".toList ∧
    (taggedStmt.stripBefore .instrumented).1.space = "\n\n\t".toList := by
  have alone : ∀ entry ∈ taggedStmt.before, StandsAlone entry := by decide
  obtain ⟨hcount, -, -, -, hlines⟩ := stripBefore_keeps_paragraphs taggedStmt .instrumented
  obtain ⟨hentries, hspace⟩ := hlines alone (by decide)
  refine ⟨alone, by decide, hcount.trans (by decide), ?_, hspace.trans (by decide)⟩
  exact hentries (taggedStmt.before.take 2) "\n\t// note".toList _ rfl (by decide)

end Stmt

end Deinstrument
