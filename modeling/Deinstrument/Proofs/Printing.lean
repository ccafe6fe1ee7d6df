import Deinstrument.Code.Build
import Deinstrument.Proofs.Reading

/-!
# Printing gives the source back

Building code from a syntax tree cuts text in three ways: into the gaps of
rows, into heads, and into the pieces around statements. Each cut can be
undone by joining the pieces in order, so the code of a tree prints as the
text of that tree, and the code of a parsed source prints as the source.
-/

namespace Deinstrument

/-! ## Cuts between statements -/

namespace Comment

theorem inlineEntries_append (fuel : Nat) (text : Text) :
    (inlineEntries fuel text).1.flatten ++ (inlineEntries fuel text).2 = text := by
  induction fuel generalizing text with
  | zero => rfl
  | succ fuel ih =>
      simp only [inlineEntries]
      split
      · rfl
      · rename_i length hlength
        have later := ih ((text.dropWhile isInline).drop length)
        simp only [List.flatten_cons, List.append_assoc, later, List.take_append_drop]
        exact List.takeWhile_append_dropWhile

theorem takeTerminator_append (gap : Text) :
    (takeTerminator gap).1 ++ (takeTerminator gap).2 = gap := by
  unfold takeTerminator
  split
  · rename_i rest hrest
    have joined := List.takeWhile_append_dropWhile (p := isInline) (l := gap)
    simpa [hrest] using joined
  · rfl

/-- Cutting the text behind a statement loses nothing. -/
theorem splitTrailing_append (gap : Text) :
    (splitTrailing gap).terminator ++ (splitTrailing gap).entries.flatten ++
      (splitTrailing gap).rest = gap := by
  have hterminator := takeTerminator_append gap
  have hentries := inlineEntries_append (takeTerminator gap).2.length (takeTerminator gap).2
  simp [splitTrailing, hentries, hterminator]

theorem leadingEntries_append (fuel : Nat) (entry text : Text) :
    (leadingEntries fuel entry text).entries.flatten ++ (leadingEntries fuel entry text).space =
      entry ++ text := by
  induction fuel generalizing entry text with
  | zero => simp [leadingEntries]
  | succ fuel ih =>
      simp only [leadingEntries]
      split
      · rename_i length hlength
        have later := ih [] (text.drop length)
        simp [later]
      · split
        · simp
        · simp [ih]

/-- Cutting the text in front of a statement loses nothing. -/
theorem splitLeading_append (text : Text) :
    (splitLeading text).entries.flatten ++ (splitLeading text).space = text :=
  leadingEntries_append (text.length + 1) [] text

end Comment

/-! ## Rows of expressions -/

@[simp]
theorem Expr.print_call (lead : Text) (callee : Expr) (row : Row Expr) :
    (Expr.call lead callee row).print = lead ++ callee.print ++ row.weave print := by
  simp [print, Row.weave, printItems_eq]

@[simp]
theorem Expr.print_literal (lead : Text) (type : Expr) (row : Row Expr) :
    (Expr.literal lead type row).print = lead ++ type.print ++ row.weave print := by
  simp [print, Row.weave, printItems_eq]

@[simp]
theorem Expr.print_elements (row : Row Expr) :
    (Expr.elements row).print = row.weave print := by
  simp [print, Row.weave, printItems_eq]

@[simp]
theorem Expr.print_other (kind : Go.Kind) (row : Row Expr) :
    (Expr.other kind row).print = row.weave print := by
  simp [print, Row.weave, printItems_eq]

@[simp]
theorem Action.print_assignment (targets values : Row Expr) :
    (Action.assignment targets values).print =
      targets.weave Expr.print ++ values.weave Expr.print := by
  simp [print, Row.weave, printItems_eq]

@[simp]
theorem Action.print_results (row : Row Expr) :
    (Action.results row).print = row.weave Expr.print := by
  simp [print, Row.weave, printItems_eq]

namespace Code

open Go (Node)

/-- A row of printed nodes is woven into the text of these nodes. -/
theorem weave_exprs {lead : Text} {items : List (Spaced Node)}
    (printed : printItems (exprs items) = Node.textItems items) :
    (Row.mk lead (exprs items)).weave Expr.print = lead ++ Node.textItems items := by
  rw [Row.weave, ← printItems_eq, printed]

/-- The brace that closes a block can be taken off and put back. -/
theorem dropLast_append_brace {text : Text} (ends : endsBlock text = true) :
    text.dropLast ++ ['\x7d'] = text := by
  rw [endsBlock, beq_iff_eq] at ends
  obtain ⟨front, rfl⟩ := List.getLast?_eq_some_iff.mp ends
  simp

/-! ## Expressions, statements and blocks -/

/-- Whatever a node is turned into prints as the text of the node. -/
structure Prints (node : Node) : Prop where
  expr : (expr node).print = node.text
  items : printItems (exprs node.row.items) = Node.textItems node.row.items
  block : ∀ body, block node = some body → printBlock body = node.text
  action : (action node).print = node.text

/-- The expressions of nodes print as the text of the nodes and gaps. -/
theorem print_exprs {items : List (Spaced Node)} (each : ∀ item ∈ items, Prints item.value) :
    printItems (exprs items) = Node.textItems items := by
  induction items with
  | nil => rfl
  | cons first rest ih =>
      obtain ⟨node, gap⟩ := first
      obtain ⟨hnode, hrest⟩ := List.forall_mem_cons.mp each
      rw [exprs, printItems, Node.textItems, hnode.expr, ih hrest]

/-- The arguments of a call keep all text behind the callee. -/
theorem print_arguments {items : List (Spaced Node)} (each : ∀ item ∈ items, Prints item.value)
    {gap : Text} {row : Row Expr} (found : arguments gap items = some row) :
    row.weave Expr.print = gap ++ Node.textItems items := by
  induction items generalizing gap with
  | nil => cases found
  | cons first rest ih =>
      obtain ⟨hnode, hrest⟩ := List.forall_mem_cons.mp each
      cases rest with
      | nil =>
          obtain ⟨⟨kind, line, lead, inner⟩, tail⟩ := first
          have hinner : printItems (exprs inner) = Node.textItems inner := hnode.items
          simp only [arguments] at found
          split at found <;> cases found
          simp only [Row.weave_push, weave_exprs hinner, Node.textItems, Node.text,
            List.append_assoc, List.append_nil]
      | cons second later =>
          obtain ⟨node, more⟩ := first
          rw [arguments] at found
          · have hlater := ih hrest found
            simpa only [Node.textItems, List.append_assoc] using hlater
          · simp

/-- A function value keeps all text in front of its body. -/
theorem print_function {items : List (Spaced Node)} (each : ∀ item ∈ items, Prints item.value)
    {head : Text} {value : Expr} (found : function head items = some value) :
    value.print = head ++ Node.textItems items := by
  induction items generalizing head with
  | nil => cases found
  | cons first rest ih =>
      obtain ⟨body, tail⟩ := first
      obtain ⟨hbody, hrest⟩ := List.forall_mem_cons.mp each
      cases rest with
      | nil =>
          simp only [function] at found
          split at found
          · rename_i htail
            split at found
            · rename_i inner hinner
              cases found
              rw [List.isEmpty_iff] at htail
              simp only [Expr.print, Node.textItems, hbody.block inner hinner, htail,
                List.append_nil]
            · cases found
          · cases found
      | cons second later =>
          have hlater := ih hrest found
          simpa only [Node.textItems, List.append_assoc] using hlater

/-- An assignment keeps all text around its targets and its values. -/
theorem print_assignment {targets values : Node} (htargets : Prints targets)
    (hvalues : Prints values) (lead gap tail : Text) :
    (Action.assignment ⟨lead ++ targets.row.lead, exprs targets.row.items⟩
      (Row.push ⟨gap ++ values.row.lead, exprs values.row.items⟩ tail)).print =
        lead ++ targets.text ++ gap ++ values.text ++ tail := by
  rw [Action.print_assignment, Row.weave_push, weave_exprs htargets.items,
    weave_exprs hvalues.items]
  simp only [Node.text_eq_weave, Node.textItems_eq, Row.weave, List.append_assoc]

/-- The statements of nodes keep all text up to the closing brace. -/
theorem print_statements {items : List (Spaced Node)} (each : ∀ item ∈ items, Prints item.value)
    (pending : Text) (nonempty : items ≠ []) (ends : endsBlock (lastGap items) = true) :
    printStmts (statements pending items).1 ++ (statements pending items).2 ++ ['\x7d'] =
      pending ++ Node.textItems items := by
  induction items generalizing pending with
  | nil => contradiction
  | cons first rest ih =>
      obtain ⟨node, gap⟩ := first
      obtain ⟨hnode, hrest⟩ := List.forall_mem_cons.mp each
      cases rest with
      | nil =>
          calc
            _ = (Comment.splitLeading pending).entries.flatten ++
                (Comment.splitLeading pending).space ++ ((action node).print ++
                  ((Comment.splitTrailing gap.dropLast).terminator ++
                    (Comment.splitTrailing gap.dropLast).entries.flatten ++
                    ((Comment.splitLeading
                        (Comment.splitTrailing gap.dropLast).rest).entries.flatten ++
                      (Comment.splitLeading (Comment.splitTrailing gap.dropLast).rest).space) ++
                    ['\x7d'])) := by
              simp only [statements, printStmts, List.append_assoc, List.flatten_append,
                List.append_nil]
            _ = pending ++ (node.text ++ gap) := by
              rw [Comment.splitLeading_append, Comment.splitLeading_append,
                Comment.splitTrailing_append, hnode.action]
              exact congrArg _ (congrArg _ (dropLast_append_brace ends))
            _ = _ := by
              simp only [Node.textItems, List.append_nil]
      | cons second later =>
          have hlater := ih hrest (Comment.splitTrailing gap).rest
            (List.cons_ne_nil second later) ends
          calc
            _ = (Comment.splitLeading pending).entries.flatten ++
                (Comment.splitLeading pending).space ++ ((action node).print ++
                  ((Comment.splitTrailing gap).terminator ++
                    (Comment.splitTrailing gap).entries.flatten ++
                    (printStmts (statements (Comment.splitTrailing gap).rest
                        (second :: later)).1 ++
                      (statements (Comment.splitTrailing gap).rest (second :: later)).2 ++
                      ['\x7d']))) := by
              simp only [statements, printStmts, List.append_assoc]
            _ = pending ++ (node.text ++ (gap ++ Node.textItems (second :: later))) := by
              rw [Comment.splitLeading_append, hlater,
                ← List.append_assoc _ _ (Node.textItems _), Comment.splitTrailing_append,
                hnode.action]
            _ = _ := by
              simp only [Node.textItems, List.append_assoc]

section

variable (kind : Go.Kind) (line : Nat) (lead : Text) {items : List (Spaced Node)}
  (each : ∀ item ∈ items, Prints item.value)

include each

/-- The expression of a node prints as the text of the node. -/
theorem print_expr :
    (expr (.mk kind line ⟨lead, items⟩)).print = Node.text (.mk kind line ⟨lead, items⟩) := by
  unfold expr
  split
  · rfl
  · split
    · rename_i operand dot field tail hname
      have hoperand := each ⟨operand, dot⟩ (by simp)
      simp only [Expr.print, hoperand.expr, Node.text, Node.textItems, List.append_assoc,
        List.append_nil]
    · rename_i callee gap rest hname
      obtain ⟨hcallee, hrest⟩ := List.forall_mem_cons.mp each
      split
      · rename_i row hrow
        simp only [Expr.print_call, hcallee.expr, print_arguments hrest hrow, Node.text,
          Node.textItems, List.append_assoc]
      · have hprinted := print_exprs hrest
        rw [printItems_eq] at hprinted
        simp only [Expr.print_other, Row.weave, Row.textOf, hcallee.expr, hprinted, Node.text,
          Node.textItems, List.append_assoc]
    · rename_i type gap _ _ start elements tail hname
      obtain ⟨htype, hrest⟩ := List.forall_mem_cons.mp each
      have helements : printItems (exprs elements) = Node.textItems elements :=
        (List.forall_mem_singleton.mp hrest).items
      simp only [Expr.print_literal, htype.expr, Row.weave_push, weave_exprs helements, Node.text,
        Node.textItems, List.append_assoc, List.append_nil]
    · simp only [Expr.print_elements, weave_exprs (print_exprs each), Node.text]
    · rename_i key colon value tail hname
      have hkey := each ⟨key, colon⟩ (by simp)
      have hvalue := each ⟨value, tail⟩ (by simp)
      simp only [Expr.print, hkey.expr, hvalue.expr, Node.text, Node.textItems,
        List.append_assoc, List.append_nil]
    · rename_i inner gap hname
      have hinner := each ⟨inner, gap⟩ (by simp)
      split
      · rename_i hempty
        simp only [Bool.and_eq_true, List.isEmpty_iff] at hempty
        simp only [hinner.expr, hempty, Node.text, Node.textItems, List.append_nil,
          List.nil_append]
      · simp only [Expr.print_other, Row.weave, Row.textOf, hinner.expr, Node.text,
          Node.textItems, List.append_nil]
    · split
      · rename_i found hfound
        simp only [print_function each hfound, Node.text]
      · simp only [Expr.print_other, weave_exprs (print_exprs each), Node.text]
    · simp only [Expr.print_other, weave_exprs (print_exprs each), Node.text]

/-- The block of a node prints as the text of the node. -/
theorem print_block {body : Block Action}
    (found : block (.mk kind line ⟨lead, items⟩) = some body) :
    printBlock body = Node.text (.mk kind line ⟨lead, items⟩) := by
  unfold block at found
  split at found
  · rename_i inner
    split at found <;> cases found
    rename_i hends
    rw [Bool.and_eq_true] at hends
    have hbrace := dropLast_append_brace hends.2
    rw [← Comment.splitTrailing_append inner.dropLast] at hbrace
    simpa only [printBlock, printStmts, Node.text, Node.textItems, List.cons_append,
      List.append_assoc, List.append_nil, List.cons.injEq, true_and] using hbrace
  · rename_i inner hitems
    split at found <;> cases found
    rename_i hends
    rw [Bool.and_eq_true] at hends
    have hopening := Comment.splitTrailing_append inner
    have hstmts := print_statements each (Comment.splitTrailing inner).rest hitems hends.2
    calc
      printBlock _ = '\x7b' :: ((Comment.splitTrailing inner).terminator ++
          (Comment.splitTrailing inner).entries.flatten ++
          (printStmts (statements (Comment.splitTrailing inner).rest items).1 ++
            (statements (Comment.splitTrailing inner).rest items).2 ++ ['\x7d'])) := by
        simp only [printBlock, List.cons_append, List.append_assoc]
      _ = '\x7b' :: (inner ++ Node.textItems items) := by
        rw [hstmts, ← List.append_assoc, hopening]
      _ = _ := by
        simp only [Node.text, List.cons_append]
  · cases found

/-- The action of a node prints as the text of the node. -/
theorem print_action :
    (action (.mk kind line ⟨lead, items⟩)).print = Node.text (.mk kind line ⟨lead, items⟩) := by
  unfold action
  split
  · rename_i value tail
    have hvalue := each ⟨value, tail⟩ (by simp)
    simp only [Action.print, hvalue.expr, Node.text, Node.textItems, List.append_assoc,
      List.append_nil]
  · rename_i first targets gap _ _ second values tail
    obtain ⟨htargets, hrest⟩ := List.forall_mem_cons.mp each
    have hvalues := List.forall_mem_singleton.mp hrest
    refine (print_assignment htargets hvalues lead gap tail).trans ?_
    simp only [Node.text, Node.textItems, List.append_assoc, List.append_nil]
  · rename_i first targets gap _ _ second values tail
    obtain ⟨htargets, hrest⟩ := List.forall_mem_cons.mp each
    have hvalues := List.forall_mem_singleton.mp hrest
    refine (print_assignment htargets hvalues lead gap tail).trans ?_
    simp only [Node.text, Node.textItems, List.append_assoc, List.append_nil]
  · simp only [Action.print_results, Row.weave, Row.textOf, Node.text, Node.textItems,
      List.append_nil]
  · rename_i first values tail
    have hvalues : printItems (exprs values) = Node.textItems values :=
      (List.forall_mem_singleton.mp each).items
    simp only [Action.print_results, Row.weave_push, weave_exprs hvalues, Node.text,
      Node.textItems, List.append_assoc, List.append_nil]
  · rfl

end

/-- Everything that is made of a node prints as its text. -/
theorem prints : (node : Node) → Prints node
  | .mk kind line ⟨lead, items⟩ =>
      have each : ∀ item ∈ items, Prints item.value := fun item _ => prints item.value
      { expr := print_expr kind line lead each
        items := print_exprs each
        block := fun _ found => print_block kind line lead each found
        action := print_action kind line lead each }
decreasing_by
  rename_i member
  have hsize := List.sizeOf_lt_of_mem member
  obtain ⟨value, gap⟩ := item
  simp only [Spaced.mk.sizeOf_spec, Node.mk.sizeOf_spec, Row.mk.sizeOf_spec] at hsize ⊢
  omega

/-! ## Functions and files -/

/-- Splitting off the last child loses no text. -/
theorem splitLast_append {head front : Text} {items : List (Spaced Node)} {last : Spaced Node}
    (split : splitLast head items = some (front, last)) :
    front ++ last.value.text ++ last.gap = head ++ Node.textItems items := by
  induction items generalizing head with
  | nil => cases split
  | cons first rest ih =>
      cases rest with
      | nil =>
          cases split
          simp [Node.textItems]
      | cons second more =>
          have later := ih split
          simpa [Node.textItems] using later

/-- The head and the body of a declared function make up the declaration. -/
theorem functionBody_append {node : Node} {head : Text} {body : Block Action}
    (found : functionBody node = some (head, body)) : head ++ printBlock body = node.text := by
  obtain ⟨kind, line, lead, items⟩ := node
  unfold functionBody at found
  split at found
  · rename_i front last gap hsplit
    split at found
    · rename_i hgap
      rw [Option.map_eq_some_iff] at found
      obtain ⟨inner, hinner, heq⟩ := found
      cases heq
      rw [List.isEmpty_iff] at hgap
      have joined := splitLast_append hsplit
      rw [(prints last).block body hinner]
      simpa [hgap, Node.text, Node.row] using joined
    · cases found
  · cases found

/-- A declared function prints as the text of its node. -/
theorem print_functionOf (node : Node) : (functionOf node).print = node.text := by
  unfold functionOf
  split
  · rename_i head body hbody
    exact functionBody_append hbody
  · rfl

@[simp]
theorem print_append (front back : List Item) :
    print (front ++ back) = print front ++ print back := by
  simp [print]

@[simp]
theorem print_textItem (text : Text) : print (textItem text) = text := by
  unfold textItem
  split
  · rename_i hempty
    rw [List.isEmpty_iff] at hempty
    rw [hempty]
    rfl
  · simp [print, Item.print]

/-- The items of nodes print as the pending text and the text of the nodes. -/
theorem print_itemsFrom (pending : Text) (items : List (Spaced Node)) :
    print (itemsFrom pending items) = pending ++ Node.textItems items := by
  induction items generalizing pending with
  | nil => simp [itemsFrom, Node.textItems]
  | cons first rest ih =>
      obtain ⟨node, gap⟩ := first
      unfold itemsFrom
      split
      · have hfunction : Item.print (.function (functionOf node)) = node.text :=
          print_functionOf node
        have later : (itemsFrom gap rest).flatMap Item.print = gap ++ Node.textItems rest :=
          ih gap
        rw [print_append, print_textItem, print, List.flatMap_cons, hfunction, later]
        simp [Node.textItems]
      · simp [ih, Node.textItems]

/-- The code of a tree prints as the text of the tree. -/
theorem print_items (root : Node) : print (items root) = root.text := by
  obtain ⟨kind, line, lead, children⟩ := root
  exact print_itemsFrom lead children

/-- The code of a parsed source prints as exactly that source. -/
theorem print_items_of_parse {source : Text} {root : Node}
    (parsed : Go.parse? source = some root) : print (items root) = source := by
  rw [print_items]
  exact Go.parse?_text parsed

/-- A method without a body, and a function with comments at its braces and
around its statements, a function value in a literal, and semicolons. -/
def mixedSource : Text :=
  ("func (t T) m()\nfunc f() \x7b // a\n\tx := T\x7bk: func() \x7b b(); \x7d\x7d /* c */\n" ++
    "\t// d\n\treturn x ;\n\t// e\n\x7d").toList

theorem print_items_of_mixedSource :
    ∃ root, Go.parse? mixedSource = some root ∧ print (items root) = mixedSource := by
  have accepted : (Go.parse? mixedSource).isSome = true := by decide +kernel
  obtain ⟨root, parsed⟩ := Option.isSome_iff_exists.mp accepted
  exact ⟨root, parsed, print_items_of_parse parsed⟩

end Code

end Deinstrument
