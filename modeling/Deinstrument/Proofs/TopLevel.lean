import Deinstrument.Proofs.ImportTrees

/-!
# The items of a source file

A source file is a sequence of package clauses, import declarations, functions
and statements, each with a terminator behind it. Reading one of them adds one
node to the row, so the children of the root are these items in order, and the
text of the file is theirs with blanks in front and terminators behind.
-/

namespace Deinstrument.Go

open Form
open Reading (Pushes Adds)

/-! ## Forms that add one node -/

/-- A form after which the row is one node, of a kind that is accepted. -/
inductive Wraps (accepts : Kind → Bool) : Form → Prop
  | wrap {kind : Kind} (accepted : accepts kind = true) : Wraps accepts (.wrap kind)
  | seq (first : Form) {second : Form} (wraps : Wraps accepts second) :
      Wraps accepts (.seq first second)
  | alt {first second : Form} (wraps : Wraps accepts first) (other : Wraps accepts second) :
      Wraps accepts (.alt first second)
  | within (shift : Shift) {inner : Form} (wraps : Wraps accepts inner) :
      Wraps accepts (.within shift inner)
  | phrase (name : Phrase) (wraps : Wraps accepts (form name)) : Wraps accepts (.phrase name)

theorem exists_of_run_wraps {accepts : Kind → Bool} {shape : Form} (wraps : Wraps accepts shape)
    (fits : shape.fits = true) {context : Context} {reading next : Reading}
    (success : run context shape reading = some next) :
    ∃ node, next.lead = [] ∧ next.items = [⟨node, []⟩] ∧ accepts node.kind = true := by
  induction wraps generalizing context reading with
  | wrap accepted =>
      rw [run_wrap] at success
      cases success
      exact ⟨_, rfl, rfl, accepted⟩
  | seq first wraps ih =>
      rw [run_seq fits] at success
      obtain ⟨middle, -, hsecond⟩ := Option.bind_eq_some_iff.mp success
      simp only [Form.fits, Bool.and_eq_true] at fits
      exact ih fits.1.2 hsecond
  | alt wraps other ih ihOther =>
      rw [run_alt fits] at success
      obtain ⟨hfirst, hsecond⟩ := Bool.and_eq_true_iff.mp fits
      rcases Option.or_eq_some_iff.mp success with success | ⟨-, success⟩
      · exact ih hfirst success
      · exact ihOther hsecond success
  | @within shift inner wraps ih =>
      have hinner : inner.fits = true := fits
      rw [run_within hinner] at success
      exact ih hinner success
  | phrase name wraps ih =>
      rw [run_phrase] at success
      exact ih (form_fits name) success

/-- A form that passes over blanks in front of what it reads. -/
def Skips (shape : Form) : Prop :=
  ∀ blanks text, Blanks true blanks → after .file shape (blanks ++ text) = after .file shape text

/-- A form that adds one node to the row, of a kind that is accepted. -/
inductive IsItem (accepts : Kind → Bool) : Form → Prop
  | frame {inner : Form} (wraps : Wraps accepts inner) (takes : inner.takes = true) :
      IsItem accepts (.seq .skip (.frame inner))
  | leaf {kind : Kind} {lexeme : Lexeme} (accepted : accepts kind = true)
      (takes : lexeme.takes = true) : IsItem accepts (.seq .skip (.leaf kind lexeme))
  | guarded {guard item : Form} (skips : Skips guard) (isItem : IsItem accepts item) :
      IsItem accepts (.seq (.notAhead guard) item)
  | alt {first second : Form} (isItem : IsItem accepts first) (other : IsItem accepts second) :
      IsItem accepts (.alt first second)
  | phrase (name : Phrase) (isItem : IsItem accepts (form name)) : IsItem accepts (.phrase name)

theorem IsItem.node {accepts : Kind → Bool} {kind : Kind} {inner : Form}
    (accepted : accepts kind = true) (takes : inner.takes = true) :
    IsItem accepts (node kind inner) :=
  .frame (.seq inner (.wrap accepted)) (Bool.or_eq_true_iff.mpr (.inl takes))

theorem exists_of_run_item {accepts : Kind → Bool} {shape : Form} (isItem : IsItem accepts shape)
    (fits : shape.fits = true) {reading next : Reading}
    (success : run .file shape reading = some next) :
    ∃ node, Adds reading next node ∧ accepts node.kind = true ∧ node.text ≠ [] := by
  induction isItem generalizing reading with
  | @frame inner wraps takes =>
      rw [run_seq fits, run_atom rfl] at success
      have hinner : inner.fits = true := by
        simp only [Form.fits, Bool.and_eq_true] at fits
        exact fits.1.2
      change run .file _ (reading.consume (blankLength reading.rest)) = some next at success
      rw [run_frame hinner] at success
      obtain ⟨inside, hinside, rfl⟩ := Option.map_eq_some_iff.mp success
      obtain ⟨node, hlead, hitems, haccepted⟩ := exists_of_run_wraps wraps hinner hinside
      have hwhole := run_whole hinside
      rw [Reading.whole_inner] at hwhole
      have hrest : afterBlanks reading.rest = node.text ++ inside.rest := by
        rw [Reading.whole, Reading.text, hlead, hitems] at hwhole
        simpa [Node.textItems, afterBlanks] using hwhole.symm
      refine ⟨node, ⟨?_, ?_, hrest⟩, haccepted, ?_⟩
      · change ((reading.consume (blankLength reading.rest)).pushText inside.lead).lead = _
        rw [hlead, Reading.pushText_nil]
        rfl
      · change inside.items ++
          ((reading.consume (blankLength reading.rest)).pushText inside.lead).items = _
        rw [hlead, hitems, Reading.pushText_nil]
        rfl
      · intro hempty
        have hshorter := (length_rest_of_read hinside).2 takes
        change inside.rest.length < (afterBlanks reading.rest).length at hshorter
        rw [hrest, hempty] at hshorter
        exact absurd hshorter (Nat.lt_irrefl _)
  | @leaf kind lexeme accepted takes =>
      rw [run_seq fits, run_atom rfl] at success
      change run .file (.leaf kind lexeme) (reading.consume (blankLength reading.rest)) =
        some next at success
      rw [run_atom rfl] at success
      obtain ⟨length, hlength, rfl⟩ := Option.map_eq_some_iff.mp success
      refine ⟨.mk kind _ (.ofText ((afterBlanks reading.rest).take length)), ⟨rfl, rfl, ?_⟩,
        accepted, ?_⟩
      · rw [Reading.rest_take]
        simp only [Node.text, Row.ofText, Node.textItems, List.append_nil]
        exact (List.take_append_drop _ _).symm
      · have hpositive := lexeme.positive takes hlength
        simp only [Node.text, Row.ofText, Node.textItems, List.append_nil]
        intro hempty
        rcases List.take_eq_nil_iff.mp hempty with hzero | hnil
        · exact absurd hzero (Nat.pos_iff_ne_zero.mp hpositive.1)
        · exact hpositive.2 hnil
  | guarded skips isItem ih =>
      rw [run_seq fits] at success
      obtain ⟨middle, hmiddle, hnext⟩ := Option.bind_eq_some_iff.mp success
      simp only [Form.fits, Bool.and_eq_true] at fits
      rw [run_notAhead fits.1.1] at hmiddle
      split at hmiddle <;> cases hmiddle
      exact ih fits.1.2 hnext
  | alt isItem other ih ihOther =>
      rw [run_alt fits] at success
      obtain ⟨hfirst, hsecond⟩ := Bool.and_eq_true_iff.mp fits
      rcases Option.or_eq_some_iff.mp success with success | ⟨-, success⟩
      · exact ih hfirst success
      · exact ihOther hsecond success
  | phrase name isItem ih =>
      rw [run_phrase] at success
      exact ih (form_fits name) success

/-! ## Blanks in front of items -/

namespace Skips

theorem skip_seq {second : Form} (fits : (Form.seq .skip second).fits = true) :
    Skips (.seq .skip second) := by
  intro blanks text passed
  rw [after_skip_seq fits, after_skip_seq fits, passed.afterBlanks_append]

theorem seq {first second : Form} (fits : (Form.seq first second).fits = true)
    (skips : Skips first) : Skips (.seq first second) := by
  intro blanks text passed
  rw [after_seq fits, after_seq fits, skips blanks text passed]

theorem guarded {guard item : Form} (fits : (Form.seq (.notAhead guard) item).fits = true)
    (skips : Skips guard) (other : Skips item) : Skips (.seq (.notAhead guard) item) := by
  intro blanks text passed
  have hguard : guard.fits = true := by
    simp only [Form.fits, Bool.and_eq_true] at fits
    exact fits.1.1
  rw [after_seq fits, after_seq fits, after_notAhead hguard, after_notAhead hguard,
    skips blanks text passed]
  split
  · rfl
  · exact other blanks text passed

theorem alt {first second : Form} (fits : (Form.alt first second).fits = true)
    (skips : Skips first) (other : Skips second) : Skips (.alt first second) := by
  intro blanks text passed
  rw [after_alt fits, after_alt fits, skips blanks text passed, other blanks text passed]

theorem anyKey (words : List String) (fits : (anyKey words).fits = true) :
    Skips (anyKey words) := by
  induction words with
  | nil =>
      intro blanks text passed
      have hnone (text : Text) : after .file (.notAhead .empty) text = none := by
        rw [after_notAhead rfl, after_atom rfl]
        rfl
      exact (hnone _).trans (hnone _).symm
  | cons word words ih =>
      obtain ⟨hkey, hwords⟩ := Bool.and_eq_true_iff.mp fits
      exact .alt fits (.skip_seq hkey) (ih hwords)

end Skips

theorem IsItem.skips {accepts : Kind → Bool} {shape : Form} (isItem : IsItem accepts shape)
    (fits : shape.fits = true) : Skips shape := by
  induction isItem with
  | frame wraps takes => exact .skip_seq fits
  | leaf accepted takes => exact .skip_seq fits
  | guarded skips isItem ih =>
      refine .guarded fits skips (ih ?_)
      simp only [Form.fits, Bool.and_eq_true] at fits
      exact fits.1.2
  | alt isItem other ih ihOther =>
      obtain ⟨hfirst, hsecond⟩ := Bool.and_eq_true_iff.mp fits
      exact .alt fits (ih hfirst) (ihOther hsecond)
  | phrase name isItem ih =>
      intro blanks text passed
      rw [after_phrase, after_phrase]
      exact ih (form_fits name) blanks text passed

/-! ## Items of the grammar -/

/-- The kinds of items other than package clauses and import declarations. -/
def isBody (kind : Kind) : Bool :=
  kind != .packageClause && kind != .importDeclaration

theorem isItem_function : IsItem isBody functionForm :=
  .alt (.node rfl rfl) (.node rfl rfl)

theorem isItem_simple : IsItem isBody (.phrase .simple) := by
  refine .phrase .simple (.frame (.seq _ (.phrase .simpleTail (.within .head ?_))) rfl)
  refine .alt (.seq _ (.seq _ (.wrap rfl))) (.alt (.seq _ (.seq _ (.wrap rfl))) ?_)
  refine .alt (.seq _ (.seq _ (.seq _ (.wrap rfl)))) ?_
  have hassignment : Wraps isBody assignment :=
    .alt (.seq _ (.seq _ (.wrap rfl))) (.seq _ (.seq _ (.wrap rfl)))
  refine .alt (.seq _ (.seq _ hassignment)) (.alt ?_ (.wrap rfl))
  exact .seq _ (.seq _ (.seq _ (.seq _ hassignment)))

theorem isItem_statement : IsItem isBody (.phrase .statement) := by
  have hdeclaration : IsItem isBody declaration :=
    .alt (.node rfl rfl) (.alt (.node rfl rfl) (.node rfl rfl))
  have hblock : IsItem isBody (.phrase .block) := .phrase .block (.node rfl rfl)
  have hif : IsItem isBody (.phrase .ifStatement) := .phrase .ifStatement (.node rfl rfl)
  have hlabel : Skips label := .seq rfl (.skip_seq rfl)
  have hrest : IsItem isBody (.seq (.notAhead (anyKey statementWords))
      (.alt (node .labeledStatement (.seq label (.phrase .statement)))
        (.seq (.notAhead label) (.phrase .simple)))) :=
    .guarded (.anyKey statementWords rfl)
      (.alt (.node rfl rfl) (.guarded hlabel isItem_simple))
  refine .phrase .statement ?_
  refine .alt hdeclaration (.alt (.node rfl rfl) (.alt (.node rfl rfl) (.alt (.node rfl rfl) ?_)))
  refine .alt hif (.alt (.node rfl rfl) (.alt (.node rfl rfl) (.alt (.node rfl rfl) ?_)))
  refine .alt (.node rfl rfl) (.alt (.leaf rfl rfl) ?_)
  refine .alt (.node rfl rfl) (.alt (.node rfl rfl) ?_)
  exact .alt (.node rfl rfl) (.alt hblock (.alt (.node rfl rfl) hrest))

/-! ## Package clauses -/

/-- The text of a package clause. -/
inductive ClauseText : Text → Prop
  | mk {blanks word : Text} (passed : Blanks true blanks) (isWord : IsWord word)
      (ends : EndsWord (blanks ++ word)) : ClauseText ("package".toList ++ blanks ++ word)

theorem exists_clause {text rest : Text} (success : after .file packageForm text = some rest) :
    ∃ clause, afterBlanks text = clause ++ rest ∧ ClauseText clause ∧ EndsWord rest := by
  rw [packageForm, after_node rfl, after_seq rfl, after_key, afterBlanks_afterBlanks] at success
  obtain ⟨opened, hopened, hname⟩ := Option.bind_eq_some_iff.mp success
  obtain ⟨length, hlength, rfl⟩ := Option.map_eq_some_iff.mp hopened
  simp only [Lexeme.length?] at hlength
  split at hlength
  · rename_i measured hmeasured
    split at hlength <;> cases hlength
    rename_i hword
    obtain ⟨keyword, behind, htext, rfl, -, hends⟩ := isWord_of_measure hmeasured
    rw [htext, List.take_left] at hword
    rw [htext, List.drop_left, after_name] at hname
    obtain ⟨length, hlength, rfl⟩ := Option.map_eq_some_iff.mp hname
    obtain ⟨word, rest, hafter, rfl, isWord, hrest⟩ := isWord_of_measure hlength
    have hgoes : afterBlanks behind ≠ [] := by
      obtain ⟨first, later, rfl, -⟩ := isWord.exists_start
      rw [hafter]
      exact List.cons_ne_nil _ _
    obtain ⟨blanks, hblanks, hbehind⟩ := exists_afterBlanks hgoes
    rw [hafter] at hbehind
    rw [hafter, List.drop_left]
    refine ⟨"package".toList ++ blanks ++ word, ?_, .mk hblanks isWord ?_, hrest⟩
    · rw [htext, hword, hbehind]
      simp
    · intro first hfirst
      refine hends first ?_
      rw [hbehind, ← List.append_assoc, List.head?_append, hfirst]
      rfl
  · cases hlength

/-- A package clause is read as such if the text behind it does not go on with
its name. -/
theorem ClauseText.after_append {clause : Text} (isClause : ClauseText clause) {blanks : Text}
    (passed : Blanks true blanks) {more : Text} (ends : EndsWord more) :
    after .file topLevel (blanks ++ clause ++ more) = some more := by
  cases isClause with
  | @mk inner word hinner isWord hword =>
      have hassoc : blanks ++ ("package".toList ++ inner ++ word) ++ more =
          blanks ++ "package".toList ++ (inner ++ word ++ more) := by simp
      have hends : EndsWord (inner ++ word ++ more) := by
        intro first hfirst
        refine hword first ?_
        obtain ⟨start, later, rfl, -⟩ := isWord.exists_start
        cases inner <;> simpa using hfirst
      rw [hassoc, topLevel_eq, after_alt rfl, packageForm, after_node rfl,
        isWord_package.afterBlanks_append passed, after_seq rfl,
        after_key_word isWord_package hends, if_pos rfl, Option.bind_some, after_name,
        isWord.afterBlanks_append hinner, isWord.measure ends, Option.map_some, List.drop_left,
        Option.some_or]

/-! ## Items -/

/-- The nodes that stand directly in a source file. -/
inductive IsTop : Node → Prop
  | clause {node : Node} (kind : node.kind = .packageClause) (isClause : ClauseText node.text) :
      IsTop node
  | declaration {node : Node} (isDeclaration : IsDeclaration node) : IsTop node
  | body {node : Node} (kind : isBody node.kind = true) : IsTop node

/-- One item of a source file. -/
def itemForm : Form :=
  .alt (.phrase .topLevel)
    (.seq (.notAhead (.alt (key "package") (key "import"))) (.phrase .statement))

theorem sourceForm_eq : sourceForm = .many (.seq itemForm .terminator) := rfl

/-- Blanks in front of an item are passed over. -/
theorem skips_itemForm : Skips itemForm := by
  have hclause : IsItem (· == .packageClause) packageForm := .node rfl rfl
  have hdeclaration : IsItem (· == .importDeclaration) declarationForm := .node rfl rfl
  have htop : Skips (.phrase .topLevel) := by
    intro blanks text passed
    rw [after_phrase, after_phrase]
    change after .file topLevel _ = after .file topLevel _
    rw [topLevel_eq]
    exact Skips.alt rfl (hclause.skips rfl)
      (.alt rfl (hdeclaration.skips rfl) (isItem_function.skips rfl)) blanks text passed
  have hguard : Skips (.alt (key "package") (key "import")) :=
    .alt rfl (.skip_seq rfl) (.skip_seq rfl)
  exact .alt rfl htop (.guarded rfl hguard (isItem_statement.skips rfl))

theorem exists_of_run_itemForm {reading next : Reading}
    (success : run .file itemForm reading = some next) :
    ∃ node, Adds reading next node ∧ IsTop node ∧ node.text ≠ [] := by
  have hbody {shape : Form} (isItem : IsItem isBody shape) (fits : shape.fits = true)
      (success : run .file shape reading = some next) :
      ∃ node, Adds reading next node ∧ IsTop node ∧ node.text ≠ [] := by
    obtain ⟨node, hadds, hkind, htext⟩ := exists_of_run_item isItem fits success
    exact ⟨node, hadds, .body hkind, htext⟩
  rw [itemForm, run_alt rfl] at success
  rcases Option.or_eq_some_iff.mp success with success | ⟨-, success⟩
  · rw [run_phrase] at success
    change run .file topLevel reading = some next at success
    rw [topLevel_eq, run_alt rfl, run_alt rfl] at success
    rcases Option.or_eq_some_iff.mp success with success | ⟨-, success⟩
    · have isItem : IsItem (· == .packageClause) packageForm := .node rfl rfl
      obtain ⟨node, hadds, hkind, htext⟩ := exists_of_run_item isItem rfl success
      obtain ⟨clause, hclause, isClause, -⟩ := exists_clause (after_of_run success)
      cases List.append_cancel_right (hclause.symm.trans hadds.rest)
      exact ⟨node, hadds, .clause (beq_iff_eq.mp hkind) isClause, htext⟩
    · rcases Option.or_eq_some_iff.mp success with success | ⟨-, success⟩
      · obtain ⟨node, hadds, isDeclaration⟩ := exists_declaration_of_run success
        refine ⟨node, hadds, .declaration isDeclaration, ?_⟩
        cases isDeclaration <;> simp [Node.text]
      · exact hbody isItem_function rfl success
  · refine hbody (.guarded ?_ isItem_statement) rfl success
    exact .alt rfl (.skip_seq rfl) (.skip_seq rfl)

/-! ## Whole sources -/

/-- A text that is read to its end as a sequence of items. -/
def SourceReads (text : Text) : Prop :=
  ∃ rest, after .file (.many (.seq itemForm .terminator)) text = some rest ∧ afterBlanks rest = []

/-- The items of a source, from a position on, with the positions at which they
start, behind all blanks in front of them. -/
inductive SourceItems : Nat → List (Nat × Node) → Text → Prop
  | stop (position : Nat) {text : Text} (ends : afterBlanks text = []) :
      SourceItems position [] text
  | last (position : Nat) {blanks rest : Text} {node : Node} (passed : Blanks true blanks)
      (solid : afterBlanks (node.text ++ rest) = node.text ++ rest) (isTop : IsTop node)
      (read : after .file itemForm (node.text ++ rest) = some rest)
      (ends : rest.drop (inlineLength rest) = []) :
      SourceItems position [(position + blanks.length, node)] (blanks ++ node.text ++ rest)
  | item (position : Nat) {blanks ending rest : Text} {node : Node} {nodes : List (Nat × Node)}
      {semicolon : Bool} (passed : Blanks true blanks)
      (solid : afterBlanks (node.text ++ ending ++ rest) = node.text ++ ending ++ rest)
      (isTop : IsTop node)
      (read : after .file itemForm (node.text ++ ending ++ rest) = some (ending ++ rest))
      (terminator : Terminator semicolon ending) (reads : SourceReads rest)
      (later : SourceItems (position + blanks.length + node.text.length + ending.length)
        nodes rest) :
      SourceItems position ((position + blanks.length, node) :: nodes)
        (blanks ++ node.text ++ ending ++ rest)

namespace Reading

/-- The nodes of the row with their positions. -/
def nodes (reading : Reading) : List (Nat × Node) :=
  Node.positions reading.lead.length reading.items.reverse

theorem positions_append (position : Nat) (front back : List (Spaced Node)) :
    Node.positions position (front ++ back) = Node.positions position front ++
      Node.positions (position + (Node.textItems front).length) back := by
  induction front generalizing position with
  | nil => rfl
  | cons item rest ih =>
      simp only [List.cons_append, Node.positions, ih, Node.textItems, List.length_append]
      congr 3
      omega

theorem nodes_pushText (reading : Reading) (added : Text) :
    (reading.pushText added).nodes = reading.nodes := by
  obtain ⟨start, lead, items, line, rest⟩ := reading
  cases items with
  | nil => rfl
  | cons last earlier => simp [nodes, pushText, positions_append, Node.positions]

theorem Pushes.nodes {reading next : Reading} {added : Text} (pushes : Pushes reading next added) :
    next.nodes = reading.nodes ∧ next.text = reading.text ++ added := by
  constructor
  · rw [← nodes_pushText reading added, Reading.nodes, Reading.nodes, pushes.lead, pushes.items]
  · rw [← text_pushText, Reading.text, Reading.text, pushes.lead, pushes.items]

theorem Adds.nodes {reading next : Reading} {node : Node} (adds : Adds reading next node) :
    next.nodes =
        reading.nodes ++ [(reading.text.length + (frontBlanks reading.rest).length, node)] ∧
      next.text = reading.text ++ frontBlanks reading.rest ++ node.text := by
  have htext := text_pushText reading (frontBlanks reading.rest)
  constructor
  · rw [← nodes_pushText reading (frontBlanks reading.rest), Reading.nodes, Reading.nodes,
      adds.lead, adds.items, List.reverse_cons, positions_append, ← List.length_append,
      ← Reading.text, htext, List.length_append]
    rfl
  · rw [← htext, Reading.text, Reading.text, adds.lead, adds.items]
    simp [Node.textItems]

end Reading

theorem run_items_nil {reading : Reading} (empty : reading.rest = []) :
    run .file (.many (.seq itemForm .terminator)) reading = some reading := by
  rw [run_many rfl]
  cases hitem : run .file (.seq itemForm .terminator) reading with
  | none => rfl
  | some next =>
      have hshorter := (length_rest_of_read hitem).2 rfl
      rw [empty] at hshorter
      cases hshorter

/-- Reading a source adds its items to the row. -/
theorem exists_sourceItems {reading final : Reading}
    (success : run .file (.many (.seq itemForm .terminator)) reading = some final)
    (ends : afterBlanks final.rest = []) :
    ∃ nodes, SourceItems reading.text.length nodes reading.rest ∧
      final.nodes = reading.nodes ++ nodes := by
  induction hlength : reading.rest.length using Nat.strongRecOn generalizing reading with
  | ind size ih =>
      subst hlength
      rw [run_many rfl] at success
      cases hitem : run .file (.seq itemForm .terminator) reading with
      | none =>
          rw [hitem] at success
          cases success
          exact ⟨[], .stop _ ends, (List.append_nil _).symm⟩
      | some middle =>
          rw [hitem, Option.elim_some] at success
          have hshorter := (length_rest_of_read hitem).2 rfl
          rw [run_seq rfl] at hitem
          obtain ⟨added, hadded, hterminator⟩ := Option.bind_eq_some_iff.mp hitem
          obtain ⟨node, hadds, isTop, hne⟩ := exists_of_run_itemForm hadded
          obtain ⟨front, hfront⟩ := exists_pushes rfl (fun _ => rfl) hterminator
          have hblanks : Blanks true (frontBlanks reading.rest) := by
            refine frontBlanks_blanks ?_
            rw [hadds.rest]
            exact List.append_ne_nil_of_left_ne_nil hne _
          have hrest : reading.rest = frontBlanks reading.rest ++ node.text ++ added.rest := by
            rw [List.append_assoc, ← hadds.rest, frontBlanks_append]
          have hsolid : afterBlanks (node.text ++ added.rest) = node.text ++ added.rest := by
            rw [← hadds.rest, afterBlanks_afterBlanks]
          have hread : after .file itemForm (node.text ++ added.rest) = some added.rest := by
            have hskips := skips_itemForm _ (node.text ++ added.rest) hblanks
            rw [← List.append_assoc, ← hrest, after_of_run hadded] at hskips
            exact hskips.symm
          have hnodes : middle.nodes = reading.nodes ++
              [(reading.text.length + (frontBlanks reading.rest).length, node)] :=
            hfront.nodes.1.trans hadds.nodes.1
          rcases exists_terminator (after_of_run hterminator) with
            ⟨semicolon, ending, hending, htext⟩ | ⟨hnil, hends⟩
          · cases List.append_cancel_right (htext.symm.trans hfront.rest)
            obtain ⟨nodes, hitems, hfinal⟩ := ih _ hshorter success rfl
            have hposition : middle.text.length = reading.text.length +
                (frontBlanks reading.rest).length + node.text.length + front.length := by
              rw [hfront.nodes.2, hadds.nodes.2]
              simp only [List.length_append]
            rw [hposition] at hitems
            rw [hfront.rest, ← List.append_assoc] at hsolid hread
            have hall := SourceItems.item _ hblanks hsolid isTop hread hending
              ⟨_, after_of_run success, ends⟩ hitems
            rw [List.append_assoc, ← hfront.rest, ← hrest] at hall
            refine ⟨_, hall, ?_⟩
            rw [hfinal, hnodes, List.append_assoc]
            rfl
          · rw [run_items_nil hnil] at success
            cases success
            have hall := SourceItems.last reading.text.length hblanks hsolid isTop hread hends
            rw [← hrest] at hall
            exact ⟨_, hall, hnodes⟩

/-- A source without the byte order mark that may open it. -/
def unmarked (source : Text) : Text :=
  if source.head? == some '\uFEFF' then source.drop 1 else source

/-- Reading a source item by item. -/
theorem parse?_eq (source : Text) :
    ∃ start : Reading, start.rest = unmarked source ∧ start.whole = source ∧ start.nodes = [] ∧
      parse? source = (run .file (.many (.seq itemForm .terminator)) start).bind fun reading =>
        if (afterBlanks reading.rest).isEmpty then
          let final := reading.consume (blankLength reading.rest)
          some (.mk .sourceFile 1 ⟨final.lead, final.items.reverse⟩)
        else none := by
  let start := if source.head? == some '\uFEFF' then (Reading.ofSource source).consume 1
    else Reading.ofSource source
  have hrest : start.rest = unmarked source := by
    simp only [start, unmarked]
    split <;> rfl
  refine ⟨start, hrest, ?_, ?_, ?_⟩
  · simp only [start]
    split
    · rw [Reading.whole_consume, Reading.whole_ofSource]
    · exact Reading.whole_ofSource source
  · simp only [start]
    split <;> rfl
  · have henough : stepsFor (.seq sourceForm .skip) start.rest ≤ stepBound source := by
      have hdepth : (Form.seq sourceForm .skip).depth ≤ 1000 := by decide +kernel
      have hlength : start.rest.length ≤ source.length := by
        rw [hrest, unmarked]
        split
        · exact (List.drop_sublist _ _).length_le
        · exact Nat.le_refl _
      simp only [stepsFor, stepBound]
      omega
    have hread : read form (stepBound source) (.mk true true false false) (sourceForm >> .skip)
        (if source.head? == some '\uFEFF' then (Reading.ofSource source).consume 1
          else Reading.ofSource source) =
        (run .file (.many (.seq itemForm .terminator)) start).bind (run .file .skip) := by
      change read form (stepBound source) .file (.seq sourceForm .skip) start = _
      rw [read_eq_run (by decide +kernel) henough, run_seq (by decide +kernel), sourceForm_eq]
    unfold parse?
    simp only [hread]
    cases run .file (.many (.seq itemForm .terminator)) start with
    | none => rfl
    | some reading => rfl

/-- A source parses if it is read to its end as a sequence of items. -/
theorem parse?_isSome_iff (source : Text) :
    (parse? source).isSome ↔ SourceReads (unmarked source) := by
  obtain ⟨start, hrest, -, -, hparse⟩ := parse?_eq source
  rw [hparse, SourceReads, ← hrest, ← rest_run]
  cases run .file (.many (.seq itemForm .terminator)) start with
  | none => simp
  | some reading =>
      simp only [Option.bind_some, Option.map_some, Option.some.injEq, exists_eq_left']
      split
      · rename_i hempty
        exact iff_of_true rfl (List.isEmpty_iff.mp hempty)
      · rename_i hne
        refine iff_of_false (by simp) fun hempty => hne (List.isEmpty_iff.mpr hempty)

/-- The children of the root are the items of the source. -/
theorem sourceItems_of_parse? {source : Text} {root : Node} (parsed : parse? source = some root) :
    ∃ mark text, source = mark ++ text ∧ text = unmarked source ∧
      SourceItems mark.length (root.childPositions 0) text := by
  obtain ⟨start, hrest, hwhole, hnodes, hparse⟩ := parse?_eq source
  rw [hparse] at parsed
  obtain ⟨final, hfinal, hroot⟩ := Option.bind_eq_some_iff.mp parsed
  split at hroot
  · rename_i hends
    cases hroot
    obtain ⟨nodes, hitems, hadded⟩ := exists_sourceItems hfinal (List.isEmpty_iff.mp hends)
    refine ⟨start.text, start.rest, hwhole.symm, hrest, ?_⟩
    have hchildren : Node.childPositions 0 (.mk .sourceFile 1
        ⟨(final.consume (blankLength final.rest)).lead,
          (final.consume (blankLength final.rest)).items.reverse⟩) = nodes := by
      rw [Node.childPositions, Nat.zero_add]
      change (final.consume (blankLength final.rest)).nodes = nodes
      rw [(Reading.pushes_consume final _).nodes.1, hadded, hnodes, List.nil_append]
    rw [hchildren]
    exact hitems
  · cases hroot

end Deinstrument.Go
