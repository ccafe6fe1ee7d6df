import Deinstrument.Proofs.Filling
import Deinstrument.Proofs.PackageLists

/-!
# Markers that are overlooked

Markers that are left are counted among the comments attached to statements and at
the starts of the lines beside braces. A comment beside a brace that stands behind
another comment on its line is overlooked, and code is not searched at all: neither
what is inside of a statement that is kept as it stands, nor what is between the
parts of an expression. If no marker is counted, a comment in a body can only start
like one where it is overlooked.
-/

namespace Deinstrument

/-! ## Comments in a text -/

namespace Comment

/-- A comment in a text, and whether it is the first thing on its line but for
blanks and semicolons. -/
structure Found where
  comment : Text
  leads : Bool
  deriving DecidableEq, Repr

def isQuote (character : Char) : Bool :=
  character == '"' || character == '\'' || character == '\x60'

/-- The length of a string or a character behind its opening quote. Between back
quotes a backslash has no meaning. -/
def literalLength (quote : Char) : Text → Nat
  | '\\' :: second :: rest =>
      if quote == '\x60' then 1 + literalLength quote (second :: rest)
      else 2 + literalLength quote rest
  | first :: rest => if first == quote then 1 else 1 + literalLength quote rest
  | [] => 0

/-- The comments in a text, at most `fuel` characters, literals and comments into it.
The flag says whether only blanks and semicolons stand in front of the text on its
line. -/
def scan : Nat → Bool → Text → List Found
  | 0, _, _ => []
  | fuel + 1, fresh, text =>
      match length? text with
      | some length => ⟨text.take length, fresh⟩ :: scan fuel false (text.drop length)
      | none =>
          match text with
          | [] => []
          | first :: rest =>
              if isQuote first then scan fuel false (rest.drop (literalLength first rest))
              else scan fuel (first == '\n' || (fresh && isSeparator first)) rest

def inText (text : Text) : List Found :=
  scan text.length true text

end Comment

/-! ## Lines of a text -/

namespace Text

/-- What stands between two line feeds is a piece of a text, and so is what stands
between one of them and an end of the text. -/
theorem mem_splitOn {front piece back : Text} (opens : ∀ last ∈ front.getLast?, last = '\n')
    (single : '\n' ∉ piece) (ends : ∀ first ∈ back.head?, first = '\n') :
    piece ∈ splitOn '\n' (front ++ (piece ++ back)) := by
  have hbehind : piece ∈ splitOn '\n' (piece ++ back) := by
    cases back with
    | nil => simp [splitOn_of_not_mem single]
    | cons first rest =>
        rw [ends first rfl, splitOn_append_cons, splitOn_of_not_mem single]
        exact List.mem_append_left _ List.mem_cons_self
  rcases List.eq_nil_or_concat' front with rfl | ⟨earlier, last, rfl⟩
  · exact hbehind
  · rw [opens last List.getLast?_concat, List.append_assoc, List.singleton_append,
      splitOn_append_cons]
    exact List.mem_append_right _ hbehind

/-- A piece between line feeds is a line, up to a carriage return at its end. -/
theorem exists_line {text piece : Text} (member : piece ∈ splitOn '\n' text)
    (nonempty : piece ≠ []) : ∃ line ∈ lines text, line = piece ∨ line = dropReturn piece := by
  obtain ⟨front, last, hpieces⟩ : ∃ front last, splitOn '\n' text = front ++ [last] :=
    ⟨_, _, (List.dropLast_append_getLast (splitOn_ne_nil '\n' text)).symm⟩
  have hlines : lines text = front.map dropReturn ++ if last = [] then [] else [last] := by
    simp only [lines, hpieces, List.getLast?_concat, List.dropLast_concat]
    cases last <;> simp
  rw [hpieces, List.mem_append, List.mem_singleton] at member
  rcases member with hfront | rfl
  · exact ⟨dropReturn piece, hlines ▸ List.mem_append_left _ (List.mem_map_of_mem hfront), .inr rfl⟩
  · refine ⟨piece, ?_, .inl rfl⟩
    rw [hlines, if_neg nonempty]
    exact List.mem_append_right _ List.mem_cons_self

/-- A text with only blanks and semicolons on its last line. -/
def IsFresh (text : Text) : Prop :=
  ∃ front gap, text = front ++ gap ∧ (∀ last ∈ front.getLast?, last = '\n') ∧ '\n' ∉ gap ∧
    ∀ character ∈ gap, Comment.isSeparator character = true

theorem IsFresh.nil : IsFresh [] :=
  ⟨[], [], rfl, by simp, List.not_mem_nil, List.forall_mem_nil _⟩

theorem IsFresh.lineBreak (text : Text) : IsFresh (text ++ ['\n']) :=
  ⟨text ++ ['\n'], [], (List.append_nil _).symm, by simp, List.not_mem_nil, List.forall_mem_nil _⟩

theorem IsFresh.separator {text : Text} {character : Char} (fresh : IsFresh text)
    (other : character ≠ '\n') (separator : Comment.isSeparator character = true) :
    IsFresh (text ++ [character]) := by
  obtain ⟨front, gap, rfl, opens, single, separators⟩ := fresh
  refine ⟨front, gap ++ [character], List.append_assoc .., opens, ?_, ?_⟩
  · simpa [single] using other.symm
  · exact List.forall_mem_append.mpr ⟨separators, List.forall_mem_singleton.mpr separator⟩

end Text

/-! ## Markers on lines -/

namespace Marker

/-- What stands in front of a comment has no part in which marker it is. -/
theorem classify_body (entry : Text) : classify (Comment.body entry) = classify entry := by
  have hbody : Comment.body (Comment.body entry) = Comment.body entry :=
    List.dropWhile_idempotent _ _
  rw [classify, classify, hbody]

theorem exists_cons_text (marker : Marker) : ∃ rest, marker.text = '/' :: rest := by
  cases marker <;> exact ⟨_, rfl⟩

/-- A marker behind blanks and semicolons is recognized. -/
theorem classify_append {gap : Text}
    (separators : ∀ character ∈ gap, Comment.isSeparator character = true) (marker : Marker)
    (words : Text) : classify (gap ++ (marker.text ++ words)) = some marker := by
  have hbody (text : Text) : Comment.body text = text.dropWhile Comment.isSeparator := rfl
  obtain ⟨rest, htext⟩ := marker.exists_cons_text
  have hsolid : Comment.body (gap ++ (marker.text ++ words)) = marker.text ++ words := by
    rw [hbody, List.dropWhile_append_of_pos separators, htext]
    simp [Comment.isSeparator, Text.isBlank]
  rw [classify_eq_some_iff, hsolid]
  exact List.isPrefixOf_iff_prefix.mpr (List.prefix_append _ _)

/-- A carriage return at the end of a line is no part of a marker. -/
theorem exists_dropReturn (gap : Text) (marker : Marker) (words : Text) :
    ∃ words', Text.dropReturn (gap ++ (marker.text ++ words)) = gap ++ (marker.text ++ words') := by
  rcases List.eq_nil_or_concat' words with rfl | ⟨front, last, rfl⟩
  · refine ⟨[], ?_⟩
    have hlast : (gap ++ (marker.text ++ [])).getLast? ≠ some '\r' := by
      rw [List.append_nil, List.getLast?_append_of_ne_nil _ (by cases marker <;> decide)]
      cases marker <;> decide
    rw [Text.dropReturn, if_neg (by simpa using hlast)]
  · unfold Text.dropReturn
    split
    · refine ⟨front, ?_⟩
      rw [← List.append_assoc, ← List.append_assoc, ← List.append_assoc, List.dropLast_concat,
        List.append_assoc]
    · exact ⟨_, rfl⟩

/-- A text that starts like a marker makes a marker of the line on which only blanks
and semicolons stand in front of it. -/
theorem exists_line {front text : Text} (fresh : Text.IsFresh front) {marker : Marker}
    (starts : marker.text <+: text) :
    ∃ line ∈ Text.lines (front ++ text), classify line = some marker := by
  obtain ⟨earlier, gap, rfl, opens, single, separators⟩ := fresh
  obtain ⟨more, rfl⟩ := starts
  have hmore := List.takeWhile_append_dropWhile (p := (· != '\n')) (l := more)
  have hwords : '\n' ∉ more.takeWhile (· != '\n') := fun member => by
    simpa using List.mem_takeWhile_imp member
  have hback : ∀ first ∈ (more.dropWhile (· != '\n')).head?, first = '\n' := by
    intro first found
    have hstops := List.head?_dropWhile_not (· != '\n') more
    rw [found] at hstops
    simpa using hstops
  generalize more.takeWhile (· != '\n') = words, more.dropWhile (· != '\n') = back at *
  have hsplit : earlier ++ gap ++ (marker.text ++ more) =
      earlier ++ ((gap ++ (marker.text ++ words)) ++ back) := by
    rw [← hmore]
    simp only [List.append_assoc]
  have hsingle : '\n' ∉ gap ++ (marker.text ++ words) := by
    have hmarker : '\n' ∉ marker.text := by cases marker <;> decide
    simp [single, hmarker, hwords]
  obtain ⟨line, hline, hshape⟩ := Text.exists_line (hsplit ▸ Text.mem_splitOn opens hsingle hback)
    (by obtain ⟨rest, htext⟩ := marker.exists_cons_text; simp [htext])
  refine ⟨line, hline, ?_⟩
  rcases hshape with rfl | rfl
  · exact classify_append separators marker words
  · obtain ⟨words', hreturn⟩ := exists_dropReturn gap marker words
    rw [hreturn]
    exact classify_append separators marker words'

end Marker

namespace Comment

/-- Where a comment starts, there is no separator. -/
theorem body_take {text : Text} {length : Nat} (starts : length? text = some length) (count : Nat) :
    body (text.take count) = text.take count := by
  obtain ⟨second, rest, rfl⟩ := exists_cons_of_length? starts
  cases count with
  | zero => rfl
  | succ count => simp [body, Text.isBlank]

/-- If no line of a text starts with a marker, no comment at the start of a line is
one. -/
theorem unmarked_scan {whole : Text} (front : Text) {text : Text} {fresh : Bool}
    (unmarked : ∀ line ∈ Text.lines whole, Marker.classify line = none)
    (joined : whole = front ++ text) (isFresh : fresh = true → Text.IsFresh front) (fuel : Nat) :
    ∀ found ∈ scan fuel fresh text, found.leads = true →
      Marker.classify found.comment = none := by
  induction fuel generalizing front text fresh with
  | zero => exact List.forall_mem_nil _
  | succ fuel ih =>
      unfold scan
      split
      next length hlength =>
        refine List.forall_mem_cons.mpr ⟨fun leads => ?_, ?_⟩
        · rw [← Option.not_isSome_iff_eq_none, Option.isSome_iff_exists]
          rintro ⟨marker, hmarker⟩
          rw [Marker.classify_eq_some_iff, body_take hlength] at hmarker
          have hstarts : marker.text <+: text :=
            (List.isPrefixOf_iff_prefix.mp hmarker).trans (List.take_prefix _ _)
          obtain ⟨line, hline, hclassify⟩ := Marker.exists_line (isFresh leads) hstarts
          rw [unmarked line (joined ▸ hline)] at hclassify
          cases hclassify
        · refine ih (front ++ text.take length) ?_ (fun never => nomatch never)
          rw [joined, List.append_assoc, List.take_append_drop]
      next =>
        split
        · exact List.forall_mem_nil _
        · rename_i first rest hnone
          split
          · refine ih (front ++ first :: rest.take (literalLength first rest)) ?_
              (fun never => nomatch never)
            rw [joined, List.append_assoc, List.cons_append, List.take_append_drop]
          · refine ih (front ++ [first]) (by simp [joined]) fun stays => ?_
            by_cases hbreak : first = '\n'
            · rw [hbreak]
              exact .lineBreak front
            · simp only [beq_eq_false_iff_ne.mpr hbreak, Bool.false_or, Bool.and_eq_true] at stays
              exact (isFresh stays.1).separator hbreak stays.2

theorem unmarked_inText {text : Text}
    (unmarked : ∀ line ∈ Text.lines text, Marker.classify line = none) :
    ∀ found ∈ inText text, found.leads = true → Marker.classify found.comment = none :=
  unmarked_scan [] unmarked rfl (fun _ => .nil) _

end Comment

/-! ## Comments of a body -/

namespace Fragment

/-- The comments that a fragment holds. -/
def found : Fragment → List Comment.Found
  | comment entry => [⟨Comment.body entry, true⟩]
  | opening source => Comment.inText (source.dropWhile (· == '{'))
  | closing source => Comment.inText source
  | code source => Comment.inText source

/-- Whether a fragment is searched for markers at the starts of its lines. -/
def isSearched : Fragment → Bool
  | code _ => false
  | _ => true

/-- The comments of a fragment that are not compared with markers. -/
def overlooked (fragment : Fragment) : List Text :=
  (fragment.found.filter fun found => !(fragment.isSearched && found.leads)).map (·.comment)

/-- Fragments with neighbouring pieces of code put together, since a literal may be
spread over several of them. -/
def stretches : List Fragment → List Fragment
  | [] => []
  | code source :: rest =>
      match stretches rest with
      | code more :: later => code (source ++ more) :: later
      | later => code source :: later
  | fragment :: rest => fragment :: stretches rest

/-- Putting code together makes no markers. -/
theorem markers_stretches {fragments : List Fragment}
    (none : ∀ fragment ∈ fragments, fragment.markers = []) :
    ∀ fragment ∈ stretches fragments, fragment.markers = [] := by
  fun_induction stretches fragments with
  | case1 => exact none
  | case2 source rest more later joined ih =>
      have hlater := ih (List.forall_mem_cons.mp none).2
      rw [joined] at hlater
      exact List.forall_mem_cons.mpr ⟨rfl, (List.forall_mem_cons.mp hlater).2⟩
  | case3 source rest apart ih =>
      exact List.forall_mem_cons.mpr ⟨rfl, ih (List.forall_mem_cons.mp none).2⟩
  | case4 fragment rest other ih =>
      obtain ⟨hfirst, hrest⟩ := List.forall_mem_cons.mp none
      exact List.forall_mem_cons.mpr ⟨hfirst, ih hrest⟩

/-- If a fragment that is searched shows no marker, no comment that starts a line of it
is one. -/
theorem unmarked_found {fragment : Fragment} (unmarked : fragment.markers = [])
    (searched : fragment.isSearched = true) :
    ∀ found ∈ fragment.found, found.leads = true → Marker.classify found.comment = none := by
  cases fragment with
  | comment entry =>
      have hentry := Marker.among_eq_nil_iff.mp unmarked entry List.mem_cons_self
      rintro found member -
      rw [List.mem_singleton.mp member, Marker.classify_body, hentry]
  | opening source => exact Comment.unmarked_inText (Marker.among_eq_nil_iff.mp unmarked)
  | closing source => exact Comment.unmarked_inText (Marker.among_eq_nil_iff.mp unmarked)
  | code source => cases searched

end Fragment

namespace Block

/-- The comments of a body and of the function values in it. -/
def comments (body : Block Action) : List Text :=
  (Fragment.stretches (fragmentsBlock body)).flatMap fun fragment =>
    fragment.found.map (·.comment)

/-- The comments of a body that are not compared with markers: those in code, and those
beside a brace that do not start their line. -/
def overlooked (body : Block Action) : List Text :=
  (Fragment.stretches (fragmentsBlock body)).flatMap Fragment.overlooked

/-- The comments of a body are those of its text: no comment and no literal reaches
from one fragment into the next. -/
def IsLegible (body : Block Action) : Prop :=
  (Comment.inText (printBlock body)).map (·.comment) = body.comments

instance (body : Block Action) : Decidable body.IsLegible :=
  inferInstanceAs (Decidable (_ = _))

/-- In a body without markers that are counted, a comment that is overlooked may start
like a marker, and no other one does. -/
theorem unmarked_comments_iff {body : Block Action}
    (unmarked : ∀ fragment ∈ fragmentsBlock body, fragment.markers = []) :
    (∀ comment ∈ body.comments, Marker.classify comment = none) ↔
      ∀ comment ∈ body.overlooked, Marker.classify comment = none := by
  simp only [comments, overlooked, Fragment.overlooked, List.forall_mem_flatMap,
    List.forall_mem_map, List.forall_mem_filter]
  constructor
  · intro all fragment hfragment found member _
    exact all fragment hfragment found member
  · intro others fragment hfragment found member
    by_cases hseen : (fragment.isSearched && found.leads) = true
    · obtain ⟨hsearched, hleads⟩ := Bool.and_eq_true_iff.mp hseen
      exact Fragment.unmarked_found (Fragment.markers_stretches unmarked fragment hfragment)
        hsearched found member hleads
    · refine others fragment hfragment found member ?_
      rw [Bool.not_eq_true', Bool.eq_false_iff]
      exact hseen

end Block

namespace Engine

/-- What it means that no marker is left according to a report. The result is the
printed text of bodies and of what is around them, up to pruned imports. None of the
comments attached to statements is a marker, and no line beside a brace starts with
one. A body has no comment at all that starts like a marker exactly if none does of
those that are overlooked. -/
theorem markersLeft_eq_zero_iff {engine : Engine} {file source : Text} {root : Go.Node}
    {out : Output} (parsed : Go.parse? source = some root)
    (done : engine.run file source = .ok out) :
    let items := engine.processed file root
    (out.source = Code.print items ∨
      out.source = (Import.prune (Code.print items) engine.config.packages engine.recover).2) ∧
    (out.report.markersLeft = 0 ↔ ∀ body ∈ Code.bodies items,
      ∀ fragment ∈ fragmentsBlock body, fragment.markers = []) ∧
    (out.report.markersLeft = 0 → ∀ body ∈ Code.bodies items,
      ((∀ comment ∈ body.comments, Marker.classify comment = none) ↔
        ∀ comment ∈ body.overlooked, Marker.classify comment = none) ∧
      (body.IsLegible →
        ((∀ found ∈ Comment.inText (printBlock body), Marker.classify found.comment = none) ↔
          ∀ comment ∈ body.overlooked, Marker.classify comment = none))) := by
  intro items
  obtain ⟨hsource, hleft⟩ := markersLeft_run parsed done
  refine ⟨hsource, hleft, fun left body member => ?_⟩
  have hbody := Block.unmarked_comments_iff (hleft.mp left body member)
  refine ⟨hbody, fun legible => ?_⟩
  rw [← hbody, ← legible, List.forall_mem_map]

/-- Comments beside the braces of a body, in a call and in a string, and a region in a
function value. -/
def annotatedSource : Text :=
  ("func f() \x7b /* x */ // y\n\tg(/* z */ \"//dd:startwrap\")\n\th := func() \x7b\n" ++
    "\t\t//dd:startwrap\n\t\ta() //dd:endwrap\n\t\x7d\n\x7d").toList

theorem markersLeft_eq_zero_annotatedSource :
    ∃ root out body, Go.parse? annotatedSource = some root ∧
      (ofConfig .standard).run [] annotatedSource = .ok out ∧ out.report.markersLeft = 0 ∧
      Code.bodies ((ofConfig .standard).processed [] root) = [body] ∧
      body.IsLegible ∧ body.overlooked = ["// y".toList, "/* z */".toList] ∧
      ∀ found ∈ Comment.inText (printBlock body), Marker.classify found.comment = none := by
  have done : (ofConfig .standard).run [] annotatedSource =
      .ok ⟨("func f() \x7b /* x */ // y\n\tg(/* z */ \"//dd:startwrap\")\n\th := func() \x7b\n" ++
        "\t\x7d\n\x7d").toList, ⟨[], 1, 0, 0, [], [], 1, [], 0⟩⟩ := by decide +kernel
  have shown : ((Go.parse? annotatedSource).map fun root =>
      (Code.bodies ((ofConfig .standard).processed [] root)).map fun body =>
        (decide body.IsLegible, body.overlooked)) =
      some [(true, ["// y".toList, "/* z */".toList])] := by decide +kernel
  obtain ⟨root, parsed, hbodies⟩ := Option.map_eq_some_iff.mp shown
  obtain ⟨body, rest, hbody, hshown, hrest⟩ := List.map_eq_cons_iff.mp hbodies
  obtain rfl := List.map_eq_nil_iff.mp hrest
  obtain ⟨hlegible, hoverlooked⟩ := Prod.mk.injEq .. ▸ hshown
  have legible : body.IsLegible := of_decide_eq_true hlegible
  have member : body ∈ [body] := List.mem_cons_self
  rw [← hbody] at member
  refine ⟨root, _, body, parsed, done, rfl, hbody, legible, hoverlooked, ?_⟩
  rw [((markersLeft_eq_zero_iff parsed done).2.2 rfl body member).2 legible, hoverlooked]
  decide

/-- A comment and the end of a span above a region that ends its block. -/
def crowdedEndSource : Text :=
  ("func f() \x7b\n\ta()\n\t/* x */ //dd:endinstrument\n\t//dd:startwrap\n" ++
    "\tb() //dd:endwrap\n\x7d").toList

/-- No marker is left according to the report, but there is one in the body of the
function behind another comment, and a second run acts on it. -/
theorem markersLeft_misses_crowdedEndSource :
    ∃ out root body again, (ofConfig .standard).run [] crowdedEndSource = .ok out ∧
      out.report.markersLeft = 0 ∧ Go.parse? out.source = some root ∧
      Code.bodies (Code.items root) = [body] ∧
      (Comment.inText (printBlock body)).map (fun found => Marker.classify found.comment) =
        [none, some .spanEnd] ∧
      (ofConfig .standard).run [] out.source = .ok again ∧
      again.source = "func f() \x7b\n\t/* x */\n\x7d".toList := by
  have done : (ofConfig .standard).run [] crowdedEndSource =
      .ok ⟨"func f() \x7b\n\ta()\n\t/* x */ //dd:endinstrument\n\x7d".toList,
        ⟨[], 1, 0, 0, [], [], 0, [], 0⟩⟩ := by decide +kernel
  have redone : (ofConfig .standard).run []
      "func f() \x7b\n\ta()\n\t/* x */ //dd:endinstrument\n\x7d".toList =
      .ok ⟨"func f() \x7b\n\t/* x */\n\x7d".toList,
        ⟨[], 0, 1, 0, [], [], 0, [], 0⟩⟩ := by decide +kernel
  have shown : ((Go.parse? "func f() \x7b\n\ta()\n\t/* x */ //dd:endinstrument\n\x7d".toList).map
      fun root => (Code.bodies (Code.items root)).map fun body =>
        (Comment.inText (printBlock body)).map fun found => Marker.classify found.comment) =
      some [[none, some .spanEnd]] := by decide +kernel
  obtain ⟨root, parsed, hbodies⟩ := Option.map_eq_some_iff.mp shown
  obtain ⟨body, rest, hbody, hmarkers, hrest⟩ := List.map_eq_cons_iff.mp hbodies
  obtain rfl := List.map_eq_nil_iff.mp hrest
  exact ⟨_, root, body, _, done, rfl, parsed, hbody, hmarkers, redone, rfl⟩

end Engine

end Deinstrument
