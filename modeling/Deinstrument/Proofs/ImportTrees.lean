import Deinstrument.Proofs.ImportGroups

/-!
# The trees of import declarations

Reading an import declaration gives a tree of the described shape. A node joins
the row under construction behind the blanks in front of it, and the texts
between nodes join the gaps of the row.
-/

namespace Deinstrument.Go

open Form

/-! ## Rows under construction -/

/-- The blanks and comments in front of a text. -/
def frontBlanks (text : Text) : Text :=
  text.take (blankLength text)

theorem frontBlanks_append (text : Text) : frontBlanks text ++ afterBlanks text = text :=
  List.take_append_drop _ _

theorem frontBlanks_blanks {text : Text} (goes : afterBlanks text ≠ []) :
    Blanks true (frontBlanks text) := by
  obtain ⟨blanks, hblanks, htext⟩ := exists_afterBlanks goes
  have hfront : frontBlanks text = blanks :=
    List.append_cancel_right ((frontBlanks_append text).trans htext)
  rwa [hfront]

theorem frontBlanks_afterBlanks (text : Text) : frontBlanks (afterBlanks text) = [] := by
  have hsplit := frontBlanks_append (afterBlanks text)
  rw [afterBlanks_afterBlanks] at hsplit
  exact List.append_cancel_right (hsplit.trans (List.nil_append _).symm)

namespace Reading

variable {reading next : Reading}

/-- A reading in which text has joined the end of the row. -/
structure Pushes (reading next : Reading) (added : Text) : Prop where
  lead : next.lead = (reading.pushText added).lead
  items : next.items = (reading.pushText added).items
  rest : reading.rest = added ++ next.rest

theorem pushes_consume (reading : Reading) (length : Nat) :
    reading.Pushes (reading.consume length) (reading.rest.take length) :=
  ⟨rfl, rfl, (List.take_append_drop _ _).symm⟩

/-- Text behind a node joins its gap. -/
theorem Pushes.cons {added : Text} (pushes : reading.Pushes next added) {node : Node} {gap : Text}
    {earlier : List (Spaced Node)} (items : reading.items = ⟨node, gap⟩ :: earlier) :
    next.items = ⟨node, gap ++ added⟩ :: earlier ∧ next.lead = reading.lead := by
  obtain ⟨start, lead, _, line, rest⟩ := reading
  cases items
  exact ⟨pushes.items, pushes.lead⟩

/-- Text in front of all nodes joins the lead of the row. -/
theorem Pushes.nil {added : Text} (pushes : reading.Pushes next added)
    (items : reading.items = []) : next.items = [] ∧ next.lead = reading.lead ++ added := by
  obtain ⟨start, lead, _, line, rest⟩ := reading
  cases items
  exact ⟨pushes.items, pushes.lead⟩

/-- A reading in which a node has joined the row behind blanks. -/
structure Adds (reading next : Reading) (node : Node) : Prop where
  lead : next.lead = (reading.pushText (frontBlanks reading.rest)).lead
  items : next.items = ⟨node, []⟩ :: (reading.pushText (frontBlanks reading.rest)).items
  rest : afterBlanks reading.rest = node.text ++ next.rest

end Reading

open Reading (Pushes Adds)

section Run

variable {context : Context} {reading next : Reading}

/-- Forms without parts that make no leaf add text to the row. -/
theorem exists_pushes {shape : Form} (atom : shape.isAtom = true)
    (plain : ∀ length, shape.take reading length = reading.consume length)
    (success : run context shape reading = some next) : ∃ added, Pushes reading next added := by
  rw [run_atom atom] at success
  obtain ⟨length, -, rfl⟩ := Option.map_eq_some_iff.mp success
  exact ⟨_, plain length ▸ Reading.pushes_consume reading length⟩

/-- Behind blanks, too. -/
theorem pushes_skip_seq {second : Form} (fits : (Form.seq .skip second).fits = true)
    (atom : second.isAtom = true)
    (plain : ∀ reading length, second.take reading length = reading.consume length)
    (success : run context (.seq .skip second) reading = some next) :
    ∃ added, Pushes reading next (frontBlanks reading.rest ++ added) ∧
      afterBlanks reading.rest = added ++ next.rest := by
  rw [run_seq fits, run_atom rfl] at success
  change run context second (reading.consume (blankLength reading.rest)) = some next at success
  rw [run_atom atom] at success
  obtain ⟨length, -, rfl⟩ := Option.map_eq_some_iff.mp success
  refine ⟨(afterBlanks reading.rest).take length, ?_, ?_⟩
  · have hpushes := Reading.pushes_consume reading (blankLength reading.rest + length)
    rw [List.take_add, ← Reading.consume_consume] at hpushes
    rw [plain]
    exact hpushes
  · rw [Reading.rest_take]
    exact (List.take_append_drop _ _).symm

theorem pushes_sym {wanted : String} (success : run context (sym wanted) reading = some next) :
    Pushes reading next (frontBlanks reading.rest ++ wanted.toList) ∧
      afterBlanks reading.rest = wanted.toList ++ next.rest := by
  obtain ⟨added, hpushes, hadded⟩ := pushes_skip_seq rfl rfl (fun _ _ => rfl) success
  have hafter := after_of_run success
  rw [after_sym] at hafter
  split at hafter
  · rename_i hstarts
    obtain ⟨rest, hrest⟩ := List.isPrefixOf_iff_prefix.mp hstarts
    rw [← hrest, List.drop_left, Option.some.injEq] at hafter
    rw [hafter] at hrest
    cases List.append_cancel_right (hrest.trans hadded)
    exact ⟨hpushes, hadded⟩
  · cases hafter

theorem pushes_key {wanted : String} (success : run context (key wanted) reading = some next) :
    Pushes reading next (frontBlanks reading.rest ++ wanted.toList) ∧ EndsWord next.rest := by
  obtain ⟨added, hpushes, hadded⟩ := pushes_skip_seq rfl rfl (fun _ _ => rfl) success
  have hafter := after_of_run success
  rw [after_key] at hafter
  obtain ⟨length, hlength, hrest⟩ := Option.map_eq_some_iff.mp hafter
  simp only [Lexeme.length?] at hlength
  split at hlength
  · rename_i measured hmeasured
    split at hlength <;> cases hlength
    rename_i hword
    obtain ⟨word, rest, htext, rfl, -, hends⟩ := isWord_of_measure hmeasured
    rw [htext, List.take_left] at hword
    rw [htext, List.drop_left] at hrest
    rw [← hrest, htext] at hadded
    cases List.append_cancel_right hadded
    rw [← hrest, ← hword]
    exact ⟨hpushes, hends⟩
  · cases hlength

theorem exists_of_run_node {kind : Kind} {inner : Form} (fits : (node kind inner).fits = true)
    (success : run context (node kind inner) reading = some next) :
    ∃ inside line, run context inner (reading.consume (blankLength reading.rest)).inner =
        some inside ∧
      Adds reading next (.mk kind line ⟨inside.lead, inside.items.reverse⟩) := by
  have hinner := fits_of_node fits
  have hseq : (Form.seq inner (.wrap kind)).fits = true := by
    simp [Form.fits, hinner, Form.depth]
  rw [node_eq] at fits success
  rw [run_seq fits, run_atom rfl] at success
  change run context _ (reading.consume (blankLength reading.rest)) = some next at success
  rw [run_frame hseq, run_seq hseq] at success
  obtain ⟨wrapped, hwrapped, rfl⟩ := Option.map_eq_some_iff.mp success
  obtain ⟨inside, hinside, hwrap⟩ := Option.bind_eq_some_iff.mp hwrapped
  cases hwrap
  refine ⟨inside, inside.start, hinside, ?_, ?_, ?_⟩
  · change ((reading.consume (blankLength reading.rest)).pushText []).lead = _
    rw [Reading.pushText_nil]
    rfl
  · change ⟨_, []⟩ :: ((reading.consume (blankLength reading.rest)).pushText []).items = _
    rw [Reading.pushText_nil]
    rfl
  · have hwhole := run_whole hinside
    rw [Reading.whole_inner] at hwhole
    exact hwhole.symm

end Run

/-! ## Specifications -/

theorem exists_spec_of_run {reading next : Reading}
    (success : run .file (.phrase .importSpec) reading = some next) :
    ∃ spec, Adds reading next spec ∧ IsSpec spec := by
  rw [run_phrase] at success
  obtain ⟨inside, line, -, hadds⟩ := exists_of_run_node rfl success
  obtain ⟨text, htext, hspec⟩ := exists_spec (after_of_run success)
  refine ⟨_, hadds, rfl, ?_⟩
  cases List.append_cancel_right (htext.symm.trans hadds.rest)
  exact hspec

theorem IsSpec.text_ne_nil {spec : Node} (isSpec : IsSpec spec) : spec.text ≠ [] := by
  obtain ⟨first, rest, htext, -⟩ := isSpec.text.exists_cons
  rw [htext]
  exact List.cons_ne_nil _ _

/-- The blanks in front of a specification. -/
theorem blanks_of_adds {reading next : Reading} {spec : Node} (adds : Adds reading next spec)
    (isSpec : IsSpec spec) : Blanks true (frontBlanks reading.rest) := by
  refine frontBlanks_blanks ?_
  rw [adds.rest]
  exact List.append_ne_nil_of_left_ne_nil isSpec.text_ne_nil _

/-- The blanks in front of a parenthesis that closes a group. -/
theorem blanks_of_close {reading next : Reading}
    (success : run .file (sym ")") reading = some next) :
    Blanks true (frontBlanks reading.rest) := by
  refine frontBlanks_blanks ?_
  rw [(pushes_sym success).2]
  exact List.cons_ne_nil _ _

/-! ## Groups -/

/-- Reading a separator and a specification. -/
theorem exists_of_run_separated {reading next : Reading}
    (success : run .file (.seq .terminator (.phrase .importSpec)) reading = some next)
    {spec : Node} {earlier : List (Spaced Node)} (items : reading.items = ⟨spec, []⟩ :: earlier) :
    ∃ added gap semicolon, Separator semicolon gap ∧ IsSpec added ∧
      next.items = ⟨added, []⟩ :: ⟨spec, gap⟩ :: earlier ∧ next.lead = reading.lead ∧
      next.rest.length < reading.rest.length := by
  have htakes := (length_rest_of_read success).2 rfl
  rw [run_seq rfl] at success
  obtain ⟨middle, hmiddle, hnext⟩ := Option.bind_eq_some_iff.mp success
  obtain ⟨front, hfront⟩ := exists_pushes rfl (fun _ => rfl) hmiddle
  obtain ⟨added, hadds, isSpec⟩ := exists_spec_of_run hnext
  obtain ⟨hitems, hlead⟩ := hfront.cons items
  have hblanks := blanks_of_adds hadds isSpec
  have hterminator : ∃ semicolon, Terminator semicolon front := by
    rcases exists_terminator (after_of_run hmiddle) with
      ⟨semicolon, text, hterminator, htext⟩ | ⟨hnil, -⟩
    · cases List.append_cancel_right (htext.symm.trans hfront.rest)
      exact ⟨semicolon, hterminator⟩
    · have hrest := hadds.rest
      rw [hnil, afterBlanks_nil] at hrest
      exact absurd (List.append_eq_nil_iff.mp hrest.symm).1 isSpec.text_ne_nil
  obtain ⟨semicolon, hterminator⟩ := hterminator
  refine ⟨added, front ++ frontBlanks middle.rest, semicolon, .mk hterminator hblanks, isSpec,
    ?_, ?_, htakes⟩
  · rw [hadds.items, Reading.pushText, hitems]
    rfl
  · rw [hadds.lead, Reading.pushText, hitems]
    exact hlead

/-- Reading behind a specification to the end of its group. -/
theorem lines_of_run {reading next : Reading}
    (success : (run .file linesEnd reading).bind (run .file (sym ")")) = some next)
    {spec : Node} {earlier : List (Spaced Node)} (isSpec : IsSpec spec)
    (items : reading.items = ⟨spec, []⟩ :: earlier) :
    ∃ lines, next.items.reverse = earlier.reverse ++ lines ∧ SpecLines lines ∧
      next.lead = reading.lead := by
  induction hlength : reading.rest.length using Nat.strongRecOn
      generalizing reading spec earlier with
  | ind size ih =>
      subst hlength
      rw [linesEnd, run_seq rfl, run_many rfl] at success
      cases hitem : run .file (.seq .terminator (.phrase .importSpec)) reading with
      | some middle =>
          obtain ⟨added, gap, semicolon, hseparator, hadded, hitems, hlead, hshorter⟩ :=
            exists_of_run_separated hitem items
          rw [hitem, Option.elim_some] at success
          have hlater : (run .file linesEnd middle).bind (run .file (sym ")")) = some next := by
            rw [linesEnd, run_seq rfl]
            exact success
          obtain ⟨lines, hlines, hspecs, hnext⟩ := ih _ hshorter hlater hadded hitems rfl
          refine ⟨⟨spec, gap⟩ :: lines, ?_, .cons isSpec hseparator hspecs, hnext.trans hlead⟩
          rw [hlines]
          simp
      | none =>
          rw [hitem, Option.elim_none, Option.bind_some, run_alt rfl] at success
          obtain ⟨middle, hmiddle, hclose⟩ := Option.bind_eq_some_iff.mp success
          obtain ⟨hpushes, hrest⟩ := pushes_sym hclose
          have hblanks := blanks_of_close hclose
          rcases Option.or_eq_some_iff.mp hmiddle with hterminator | ⟨-, hempty⟩
          · obtain ⟨front, hfront⟩ := exists_pushes rfl (fun _ => rfl) hterminator
            obtain ⟨hitems, hlead⟩ := hfront.cons items
            obtain ⟨hnext, hnextLead⟩ := hpushes.cons hitems
            rcases exists_terminator (after_of_run hterminator) with
              ⟨semicolon, text, hsemicolon, htext⟩ | ⟨hnil, -⟩
            · cases List.append_cancel_right (htext.symm.trans hfront.rest)
              refine ⟨[⟨spec, front ++ frontBlanks middle.rest ++ [')']⟩], ?_,
                .last isSpec (.inr ⟨semicolon, .mk hsemicolon hblanks⟩), hnextLead.trans hlead⟩
              rw [hnext]
              simp
            · rw [hnil] at hrest
              cases hrest
          · rw [run_atom rfl] at hempty
            cases hempty
            have hitems : (Form.take .empty reading 0).items = ⟨spec, []⟩ :: earlier := by
              simpa [Form.take] using items
            obtain ⟨hnext, hnextLead⟩ := hpushes.cons hitems
            refine ⟨[⟨spec, frontBlanks (Form.take .empty reading 0).rest ++ [')']⟩], ?_,
              .last isSpec (.inl hblanks), ?_⟩
            · rw [hnext]
              simp
            · rw [hnextLead]
              simp [Form.take]

theorem exists_group_of_run {reading next : Reading}
    (success : run .file groupForm reading = some next) :
    ∃ list, Adds reading next list ∧ IsGroup list := by
  obtain ⟨inside, line, hinside, hadds⟩ := exists_of_run_node rfl success
  refine ⟨_, hadds, ?_⟩
  have hstart : frontBlanks (reading.consume (blankLength reading.rest)).inner.rest = [] :=
    frontBlanks_afterBlanks reading.rest
  rw [run_seq rfl] at hinside
  obtain ⟨opened, hopened, hend⟩ := Option.bind_eq_some_iff.mp hinside
  obtain ⟨hpushes, -⟩ := pushes_sym hopened
  rw [hstart, List.nil_append] at hpushes
  obtain ⟨hitems, hlead⟩ := hpushes.nil rfl
  rw [groupEnd, run_seq rfl, run_within rfl] at hend
  obtain ⟨filled, hfilled, hclose⟩ := Option.bind_eq_some_iff.mp hend
  change run .file _ opened = some filled at hfilled
  rw [run_alt rfl] at hfilled
  rcases Option.or_eq_some_iff.mp hfilled with hlines | ⟨-, hempty⟩
  · rw [run_seq rfl] at hlines
    obtain ⟨middle, hmiddle, hbehind⟩ := Option.bind_eq_some_iff.mp hlines
    obtain ⟨spec, hspec, isSpec⟩ := exists_spec_of_run hmiddle
    have hmiddleItems : middle.items = [⟨spec, []⟩] := by
      rw [hspec.items, Reading.pushText, hitems]
    have hmiddleLead : middle.lead = '(' :: frontBlanks opened.rest := by
      rw [hspec.lead, Reading.pushText, hitems, hlead]
      rfl
    have hrun : (run .file linesEnd middle).bind (run .file (sym ")")) = some inside := by
      rw [hbehind]
      exact hclose
    obtain ⟨lines, hall, hspecs, hinsideLead⟩ := lines_of_run hrun isSpec hmiddleItems
    rw [hall, hinsideLead, hmiddleLead]
    exact .lines line (blanks_of_adds hspec isSpec) hspecs
  · rw [run_atom rfl] at hempty
    cases hempty
    have hopenedItems : (Form.take .empty opened 0).items = [] := by
      simpa [Form.take] using hitems
    obtain ⟨hnone, hinsideLead⟩ := (pushes_sym hclose).1.nil hopenedItems
    have htakenLead : (Form.take .empty opened 0).lead = ['('] := by
      simpa [Form.take, Reading.inner] using hlead
    have hgroup := IsGroup.empty line (blanks_of_close hclose)
    rw [hnone, hinsideLead, htakenLead]
    simpa using hgroup

/-! ## Declarations -/

theorem exists_declaration_of_run {reading next : Reading}
    (success : run .file declarationForm reading = some next) :
    ∃ declaration, Adds reading next declaration ∧ IsDeclaration declaration := by
  obtain ⟨inside, line, hinside, hadds⟩ := exists_of_run_node rfl success
  refine ⟨_, hadds, ?_⟩
  have hstart : frontBlanks (reading.consume (blankLength reading.rest)).inner.rest = [] :=
    frontBlanks_afterBlanks reading.rest
  rw [run_seq rfl] at hinside
  obtain ⟨opened, hopened, hend⟩ := Option.bind_eq_some_iff.mp hinside
  obtain ⟨hpushes, hends⟩ := pushes_key hopened
  rw [hstart, List.nil_append] at hpushes
  obtain ⟨hitems, hlead⟩ := hpushes.nil rfl
  -- The one node of the row stands behind the keyword and blanks.
  have hrow {node : Node} (hnode : Adds opened inside node) :
      (⟨inside.lead, inside.items.reverse⟩ : Row Node) =
        ⟨"import".toList ++ frontBlanks opened.rest, [⟨node, []⟩]⟩ := by
    rw [hnode.items, hnode.lead, Reading.pushText, hitems, hlead]
    rfl
  rw [run_alt rfl] at hend
  rcases Option.or_eq_some_iff.mp hend with hgroup | ⟨-, hspec⟩
  · obtain ⟨list, hlist, isGroup⟩ := exists_group_of_run hgroup
    obtain ⟨rest, hrest⟩ := isGroup.exists_cons
    have hblanks : Blanks true (frontBlanks opened.rest) := by
      refine frontBlanks_blanks ?_
      rw [hlist.rest, hrest]
      exact List.cons_ne_nil _ _
    rw [hrow hlist]
    exact .group line hblanks isGroup
  · obtain ⟨spec, hspec, isSpec⟩ := exists_spec_of_run hspec
    rw [hrow hspec]
    refine .single line (blanks_of_adds hspec isSpec) ?_ isSpec
    have htext : opened.rest = frontBlanks opened.rest ++ spec.text ++ inside.rest := by
      rw [List.append_assoc, ← hspec.rest, frontBlanks_append]
    intro first hfirst
    refine hends first ?_
    rw [htext, List.head?_append, hfirst]
    rfl

end Deinstrument.Go
