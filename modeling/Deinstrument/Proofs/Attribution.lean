import Deinstrument.Proofs.Filling

/-!
# Which statement a comment belongs to

The text between two statements is a sequence of comments with blanks and
semicolons around them. Cutting off what belongs to the first statement and cutting
the rest in front of the second gives one entry for each comment, in order. The
comments behind the first statement are those up to the first line break or
semicolon, apart from the semicolon that ends the statement.
-/

namespace Deinstrument.Comment

/-! ## Texts as sequences of comments -/

/-- A comment with the blanks and semicolons in front of it. -/
structure Remark where
  gap : Text
  comment : Text
  deriving DecidableEq, Repr

/-- Comments, and the blanks and semicolons behind the last of them. -/
structure Interlude where
  remarks : List Remark
  space : Text
  deriving DecidableEq, Repr

namespace Remark

def text (remark : Remark) : Text :=
  remark.gap ++ remark.comment

/-- Whether only blanks that do not end a line stand in front of a comment. -/
def isInline (remark : Remark) : Bool :=
  remark.gap.all Comment.isInline

end Remark

/-- A comment that is complete where `later` begins: a line comment ends with its line
or with the text, a block comment with the first star and slash inside it. -/
inductive EndsBefore : Text → Text → Prop
  | line {words later : Text} (short : '\n' ∉ words)
      (ends : ∀ character, later.head? = some character → character = '\n') :
      EndsBefore ('/' :: '/' :: words) later
  | block {words later : Text} (unclosed : ¬['*', '/'] <:+: words ++ ['*']) :
      EndsBefore ('/' :: '*' :: words ++ ['*', '/']) later

namespace Interlude

def text (interlude : Interlude) : Text :=
  interlude.remarks.flatMap Remark.text ++ interlude.space

theorem text_cons (remark : Remark) (rest : List Remark) (space : Text) :
    text ⟨remark :: rest, space⟩ = remark.gap ++ (remark.comment ++ text ⟨rest, space⟩) := by
  simp [text, Remark.text]

/-- All comments are complete, and nothing but blanks and semicolons stands around
them. -/
inductive IsComplete : Interlude → Prop
  | nil {space : Text} (separators : ∀ character ∈ space, isSeparator character = true) :
      IsComplete ⟨[], space⟩
  | cons {remark : Remark} {rest : List Remark} {space : Text}
      (separators : ∀ character ∈ remark.gap, isSeparator character = true)
      (ends : EndsBefore remark.comment (text ⟨rest, space⟩))
      (later : IsComplete ⟨rest, space⟩) : IsComplete ⟨remark :: rest, space⟩

/-- Take characters off the gap in front of the first comment. -/
def dropFront (count : Nat) : Interlude → Interlude
  | ⟨[], space⟩ => ⟨[], space.drop count⟩
  | ⟨remark :: rest, space⟩ => ⟨{ remark with gap := remark.gap.drop count } :: rest, space⟩

end Interlude

/-- An optional semicolon at the front of a text, with the blanks on its line in front
of it. -/
def IsTerminator (terminator text : Text) : Prop :=
  (∃ blanks, (∀ character ∈ blanks, isInline character = true) ∧
    terminator = blanks ++ [';'] ∧ terminator <+: text) ∨
  (terminator = [] ∧ ∀ blanks, (∀ character ∈ blanks, isInline character = true) →
    ¬blanks ++ [';'] <+: text)

/-! ## One comment -/

theorem find?_of_unclosed {words : Text} (unclosed : ¬['*', '/'] <:+: words ++ ['*']) (later : Text) :
    Text.find? ['*', '/'] (words ++ '*' :: '/' :: later) = some words.length := by
  induction words with
  | nil => rfl
  | cons first rest ih =>
      have hnone : ¬['*', '/'].isPrefixOf (first :: (rest ++ '*' :: '/' :: later)) = true := by
        intro hstart
        -- Two characters at the front lie in front of the slash that closes the comment.
        have hshort : ['*', '/'] <+: first :: rest ++ ['*'] := by
          refine List.prefix_of_prefix_length_le (List.isPrefixOf_iff_prefix.mp hstart)
            ⟨'/' :: later, by simp⟩ (by simp)
        exact unclosed hshort.isInfix
      have hrest : ¬['*', '/'] <:+: rest ++ ['*'] :=
        fun found => unclosed (found.trans (List.suffix_cons first _).isInfix)
      rw [List.cons_append, Text.find?, if_neg hnone, ih hrest]
      rfl

namespace EndsBefore

variable {comment later : Text}

theorem exists_cons (ends : EndsBefore comment later) :
    ∃ second rest, comment = '/' :: second :: rest := by
  cases ends with
  | line short ends => exact ⟨_, _, rfl⟩
  | block unclosed => exact ⟨_, _, rfl⟩

theorem length?_append (ends : EndsBefore comment later) :
    length? (comment ++ later) = some comment.length := by
  cases ends with
  | @line words _ short ends =>
      have hwords : ∀ character ∈ words, (character != '\n') = true := by
        intro character member
        rw [bne_iff_ne]
        exact ne_of_mem_of_not_mem member short
      have hlater : later.takeWhile (· != '\n') = [] := by
        cases later with
        | nil => rfl
        | cons first rest => rw [ends first rfl]; rfl
      simp [length?, lineLength, List.takeWhile_append_of_pos hwords, hlater]
  | @block words _ unclosed =>
      simp [length?, find?_of_unclosed unclosed]

theorem isWhole (ends : EndsBefore comment later) : IsWhole comment := by
  have hshort : EndsBefore comment [] := by
    cases ends with
    | line short ends => exact .line short (by simp)
    | block unclosed => exact .block unclosed
  have hlength := hshort.length?_append
  rwa [List.append_nil] at hlength

end EndsBefore

/-- No comment starts with a blank or a semicolon. -/
theorem length?_eq_none {text : Text}
    (separator : ∀ character, text.head? = some character → isSeparator character = true) :
    length? text = none := by
  cases hlength : length? text with
  | none => rfl
  | some length =>
      obtain ⟨second, rest, rfl⟩ := exists_cons_of_length? hlength
      cases separator '/' rfl

/-! ## Comments on the line of a statement -/

theorem inlineEntries_stop {text : Text} (none : length? (text.dropWhile isInline) = none)
    (fuel : Nat) : inlineEntries fuel text = ([], text) := by
  cases fuel with
  | zero => rfl
  | succ fuel => simp [inlineEntries, none]

theorem inlineEntries_comment {gap comment later : Text}
    (inline : ∀ character ∈ gap, isInline character = true) (ends : EndsBefore comment later)
    (fuel : Nat) :
    inlineEntries (fuel + 1) (gap ++ (comment ++ later)) =
      ((gap ++ comment) :: (inlineEntries fuel later).1, (inlineEntries fuel later).2) := by
  obtain ⟨second, rest, hcomment⟩ := ends.exists_cons
  have hstops : (comment ++ later).takeWhile isInline = [] := by rw [hcomment]; rfl
  have hstays : (comment ++ later).dropWhile isInline = comment ++ later := by rw [hcomment]; rfl
  simp only [inlineEntries, List.takeWhile_append_of_pos inline, hstops, List.append_nil,
    List.dropWhile_append_of_pos inline, hstays, ends.length?_append, List.take_left,
    List.drop_left]

/-- A gap that holds more than blanks on one line ends the comments on that line. -/
theorem length?_dropWhile_gap {gap : Text}
    (separators : ∀ character ∈ gap, isSeparator character = true) {more : Text}
    (stops : gap.all isInline = false ∨ more = []) :
    length? ((gap ++ more).dropWhile isInline) = none := by
  apply length?_eq_none
  intro character found
  rw [List.dropWhile_append] at found
  split at found
  next hempty =>
    rcases stops with hgap | rfl
    · have hall : gap.all isInline = true := by
        rw [List.all_eq_true]
        exact List.dropWhile_eq_nil_iff.mp (List.isEmpty_iff.mp hempty)
      rw [hgap] at hall
      cases hall
    · cases found
  next hrest =>
    have hne : gap.dropWhile isInline ≠ [] := fun hnil => hrest (by rw [hnil]; rfl)
    rw [List.head?_append_of_ne_nil _ hne] at found
    exact separators character
      ((List.dropWhile_sublist isInline).subset (List.mem_of_head? found))

/-- The comments on the line of a statement are those in front of which there are only
blanks on that line. -/
theorem inlineEntries_text {interlude : Interlude} (complete : interlude.IsComplete) {fuel : Nat}
    (enough : interlude.remarks.length ≤ fuel) :
    inlineEntries fuel interlude.text =
      ((interlude.remarks.takeWhile Remark.isInline).map Remark.text,
        Interlude.text ⟨interlude.remarks.dropWhile Remark.isInline, interlude.space⟩) := by
  induction complete generalizing fuel with
  | @nil space separators =>
      refine inlineEntries_stop ?_ fuel
      rw [← List.append_nil (Interlude.text _)]
      exact length?_dropWhile_gap separators (.inr rfl)
  | @cons remark rest space separators ends later ih =>
      rw [Interlude.text_cons]
      cases hinline : remark.isInline with
      | true =>
          obtain ⟨fuel, rfl⟩ := Nat.exists_eq_add_one_of_ne_zero (Nat.ne_zero_of_lt enough)
          rw [inlineEntries_comment (List.all_eq_true.mp hinline) ends,
            ih (Nat.le_of_succ_le_succ enough), List.takeWhile_cons_of_pos hinline,
            List.dropWhile_cons_of_pos hinline]
          rfl
      | false =>
          have hneg : ¬remark.isInline = true := by simp [hinline]
          rw [inlineEntries_stop (length?_dropWhile_gap separators (.inl hinline)),
            List.takeWhile_cons_of_neg hneg, List.dropWhile_cons_of_neg hneg, Interlude.text_cons]
          rfl

/-! ## Comments in front of a statement -/

theorem leadingEntries_gap {gap : Text}
    (separators : ∀ character ∈ gap, isSeparator character = true) (fuel : Nat)
    (entry text : Text) :
    leadingEntries (gap.length + fuel) entry (gap ++ text) =
      leadingEntries fuel (entry ++ gap) text := by
  induction gap generalizing entry with
  | nil => simp
  | cons first rest ih =>
      obtain ⟨hfirst, hrest⟩ := List.forall_mem_cons.mp separators
      have hnone : length? (first :: (rest ++ text)) = none :=
        length?_eq_none (by simpa using hfirst)
      rw [List.length_cons, Nat.add_right_comm, List.cons_append, leadingEntries, hnone]
      simpa using ih hrest (entry ++ [first])

theorem leadingEntries_comment {comment later : Text} (ends : EndsBefore comment later)
    (fuel : Nat) (entry : Text) :
    leadingEntries (fuel + 1) entry (comment ++ later) =
      ⟨(entry ++ comment) :: (leadingEntries fuel [] later).entries,
        (leadingEntries fuel [] later).space⟩ := by
  simp only [leadingEntries, ends.length?_append, List.take_left, List.drop_left]

theorem leadingEntries_nil (fuel : Nat) (entry : Text) :
    leadingEntries fuel entry [] = ⟨[], entry⟩ := by
  cases fuel with
  | zero => simp [leadingEntries]
  | succ fuel => rfl

theorem leadingEntries_text {interlude : Interlude} (complete : interlude.IsComplete) {fuel : Nat}
    (enough : interlude.text.length ≤ fuel) :
    leadingEntries fuel [] interlude.text =
      ⟨interlude.remarks.map Remark.text, interlude.space⟩ := by
  induction complete generalizing fuel with
  | @nil space separators =>
      obtain ⟨fuel, rfl⟩ := Nat.exists_eq_add_of_le enough
      have hgap := leadingEntries_gap separators fuel [] []
      rw [List.append_nil, leadingEntries_nil] at hgap
      exact hgap
  | @cons remark rest space separators ends later ih =>
      obtain ⟨second, more, hcomment⟩ := ends.exists_cons
      rw [Interlude.text_cons] at enough ⊢
      have hcount : remark.gap.length + (Interlude.text ⟨rest, space⟩).length + 1 ≤ fuel := by
        simp only [List.length_append, hcomment, List.length_cons] at enough
        omega
      obtain ⟨fuel, rfl⟩ := Nat.exists_eq_add_of_le hcount
      have hfuel : remark.gap.length + (Interlude.text ⟨rest, space⟩).length + 1 + fuel =
          remark.gap.length + ((Interlude.text ⟨rest, space⟩).length + fuel + 1) := by
        omega
      rw [hfuel, leadingEntries_gap separators, leadingEntries_comment ends,
        ih (Nat.le_add_right _ fuel)]
      rfl

/-! ## The semicolon behind a statement -/

theorem isTerminator_takeTerminator (text : Text) :
    IsTerminator (takeTerminator text).1 text := by
  have hjoin := List.takeWhile_append_dropWhile (p := isInline) (l := text)
  unfold takeTerminator
  split
  next rest hrest =>
    refine .inl ⟨text.takeWhile isInline, fun _ member => List.mem_takeWhile_imp member, rfl,
      rest, ?_⟩
    rw [hrest] at hjoin
    simpa using hjoin
  next other =>
    refine .inr ⟨rfl, ?_⟩
    rintro blanks hblanks ⟨rest, rfl⟩
    refine other rest ?_
    rw [List.append_assoc, List.dropWhile_append_of_pos hblanks]
    rfl

/-- A semicolon is looked for in front of the first comment only. -/
theorem takeTerminator_of_solid {gap later : Text}
    (solid : ∀ character, later.head? = some character →
      isInline character = false ∧ character ≠ ';') :
    takeTerminator (gap ++ later) =
      ((takeTerminator gap).1, (takeTerminator gap).2 ++ later) := by
  unfold takeTerminator
  rw [List.dropWhile_append, List.takeWhile_append]
  cases hrest : gap.dropWhile isInline with
  | nil =>
      cases later with
      | nil => simp
      | cons first rest =>
          obtain ⟨hinline, hsemicolon⟩ := solid first rfl
          simp [hinline, hsemicolon]
  | cons first rest =>
      have hshort : (gap.takeWhile isInline).length ≠ gap.length := by
        have hlength := congrArg List.length
          (List.takeWhile_append_dropWhile (p := isInline) (l := gap))
        rw [hrest, List.length_append, List.length_cons] at hlength
        omega
      by_cases hsemicolon : first = ';'
      · simp [hsemicolon, hshort]
      · simp [hsemicolon]

namespace Interlude

theorem takeTerminator_text {interlude : Interlude} (complete : interlude.IsComplete) :
    (takeTerminator interlude.text).2 =
      (interlude.dropFront (takeTerminator interlude.text).1.length).text := by
  cases complete with
  | @nil space separators =>
      have hjoin := takeTerminator_append space
      simp only [text, dropFront, List.flatMap_nil, List.nil_append]
      nth_rewrite 3 [← hjoin]
      rw [List.drop_left]
  | @cons remark rest space separators ends later =>
      obtain ⟨second, more, hcomment⟩ := ends.exists_cons
      have hjoin := takeTerminator_append remark.gap
      have hsolid : ∀ character, (remark.comment ++ text ⟨rest, space⟩).head? = some character →
          isInline character = false ∧ character ≠ ';' := by
        rw [hcomment]
        rintro _ ⟨⟩
        decide
      rw [text_cons, takeTerminator_of_solid hsolid]
      simp only [dropFront, text_cons]
      nth_rewrite 3 [← hjoin]
      rw [List.drop_left]

theorem IsComplete.dropFront {interlude : Interlude} (complete : interlude.IsComplete)
    (count : Nat) : (interlude.dropFront count).IsComplete := by
  cases complete with
  | nil separators =>
      exact .nil fun character member => separators character (List.mem_of_mem_drop member)
  | cons separators ends later =>
      exact .cons (fun character member => separators character (List.mem_of_mem_drop member))
        ends later

theorem IsComplete.dropWhile {interlude : Interlude} (complete : interlude.IsComplete)
    (passes : Remark → Bool) :
    IsComplete ⟨interlude.remarks.dropWhile passes, interlude.space⟩ := by
  induction complete with
  | nil separators => exact .nil separators
  | cons separators ends later ih =>
      rw [List.dropWhile_cons]
      split
      · exact ih
      · exact .cons separators ends later

theorem IsComplete.body_text {interlude : Interlude} (complete : interlude.IsComplete) :
    interlude.remarks.map (fun remark => body remark.text) =
      interlude.remarks.map Remark.comment := by
  induction complete with
  | nil separators => rfl
  | cons separators ends later ih =>
      rw [List.map_cons, List.map_cons, ih]
      exact congrArg (· :: _) (body_append separators ends.isWhole)

theorem comments_dropFront (interlude : Interlude) (count : Nat) :
    (interlude.dropFront count).remarks.map Remark.comment =
      interlude.remarks.map Remark.comment := by
  obtain ⟨remarks, space⟩ := interlude
  cases remarks <;> rfl

theorem length_remarks_le {interlude : Interlude} (complete : interlude.IsComplete) :
    interlude.remarks.length ≤ interlude.text.length := by
  induction complete with
  | nil separators => exact Nat.zero_le _
  | @cons remark rest space separators ends later ih =>
      obtain ⟨second, more, hcomment⟩ := ends.exists_cons
      rw [text_cons, hcomment]
      simp only [List.length_append, List.length_cons] at ih ⊢
      omega

end Interlude

/-! ## The two statements -/

theorem splitTrailing_text {interlude : Interlude} (complete : interlude.IsComplete) :
    let terminator := (takeTerminator interlude.text).1
    let behind := interlude.dropFront terminator.length
    splitTrailing interlude.text =
      ⟨terminator, (behind.remarks.takeWhile Remark.isInline).map Remark.text,
        Interlude.text ⟨behind.remarks.dropWhile Remark.isInline, behind.space⟩⟩ := by
  intro terminator behind
  have hbehind : behind.IsComplete := complete.dropFront _
  have hinline := inlineEntries_text hbehind (Interlude.length_remarks_le hbehind)
  rw [← Interlude.takeTerminator_text complete] at hinline
  exact congrArg (fun cut : List Text × Text => Trailing.mk terminator cut.1 cut.2) hinline

theorem splitLeading_text {interlude : Interlude} (complete : interlude.IsComplete) :
    splitLeading interlude.text = ⟨interlude.remarks.map Remark.text, interlude.space⟩ :=
  leadingEntries_text complete (Nat.le_succ _)

/-- Between two statements each comment is given to one of them, once and in order. The
first statement takes its semicolon, if there is one on its line, and then the longest
run of comments in front of which there are only blanks on its line; the others go to
the second statement. Each entry is its comment behind all that stands since the entry
or semicolon before it, and nothing of the text is lost. -/
theorem split_attributes_comments {interlude : Interlude} (complete : interlude.IsComplete) :
    let trailing := splitTrailing interlude.text
    let leading := splitLeading trailing.rest
    let behind := interlude.dropFront trailing.terminator.length
    IsTerminator trailing.terminator interlude.text ∧
    trailing.entries ++ leading.entries = behind.remarks.map Remark.text ∧
    (trailing.entries ++ leading.entries).map body = interlude.remarks.map Remark.comment ∧
    trailing.entries = (behind.remarks.takeWhile Remark.isInline).map Remark.text ∧
    leading.space = behind.space ∧
    trailing.terminator ++ trailing.entries.flatten ++ leading.entries.flatten ++ leading.space =
      interlude.text := by
  intro trailing leading behind
  have hbehind : behind.IsComplete := complete.dropFront _
  have htrailing := splitTrailing_text complete
  have hentries : trailing.entries = (behind.remarks.takeWhile Remark.isInline).map Remark.text :=
    congrArg Trailing.entries htrailing
  have hleading : leading =
      ⟨(behind.remarks.dropWhile Remark.isInline).map Remark.text, behind.space⟩ :=
    (congrArg (splitLeading ∘ Trailing.rest) htrailing).trans
      (splitLeading_text (hbehind.dropWhile Remark.isInline))
  have hall : trailing.entries ++ leading.entries = behind.remarks.map Remark.text := by
    rw [hentries, hleading, ← List.map_append, List.takeWhile_append_dropWhile]
  refine ⟨isTerminator_takeTerminator interlude.text, hall, ?_, hentries, by rw [hleading], ?_⟩
  · rw [hall, List.map_map]
    exact hbehind.body_text.trans (interlude.comments_dropFront _)
  · rw [List.append_assoc, splitLeading_append trailing.rest]
    exact splitTrailing_append interlude.text

/-- A semicolon, two comments on its line with another semicolon inside the first, and a
comment below behind a third. -/
def mixedInterlude : Interlude :=
  ⟨[⟨" ; ".toList, '/' :: '*' :: " a; // ".toList ++ ['*', '/']⟩,
    ⟨" ".toList, '/' :: '/' :: " b /*".toList⟩,
    ⟨"\n\n;".toList, '/' :: '/' :: " c".toList⟩], "\n\t".toList⟩

theorem split_attributes_comments_mixedInterlude :
    mixedInterlude.IsComplete ∧
    (splitTrailing mixedInterlude.text).terminator = " ;".toList ∧
    (splitTrailing mixedInterlude.text).entries = [" /* a; // */".toList, " // b /*".toList] ∧
    (splitTrailing mixedInterlude.text).entries ++
        (splitLeading (splitTrailing mixedInterlude.text).rest).entries =
      [" /* a; // */".toList, " // b /*".toList, "\n\n;// c".toList] ∧
    (splitLeading (splitTrailing mixedInterlude.text).rest).space = "\n\t".toList := by
  have separators {gap : Text} (checked : gap.all isSeparator = true) :
      ∀ character ∈ gap, isSeparator character = true :=
    List.all_eq_true.mp checked
  have complete : mixedInterlude.IsComplete :=
    .cons (separators rfl) (.block (by decide +kernel))
      (.cons (separators rfl) (.line (by decide) fun _ found => (Option.some.inj found).symm)
        (.cons (separators rfl) (.line (by decide) fun _ found => (Option.some.inj found).symm)
          (.nil (separators rfl))))
  obtain ⟨-, hall, -, hentries, hspace, -⟩ := split_attributes_comments complete
  have hterminator : (splitTrailing mixedInterlude.text).terminator = " ;".toList := by
    decide +kernel
  rw [hterminator] at hall hentries hspace
  exact ⟨complete, hterminator, hentries, hall, hspace⟩

end Deinstrument.Comment
