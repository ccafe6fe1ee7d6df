import Deinstrument.Go.Grammar

/-!
# Reading loses no text

A reading holds its source in two parts, the row under construction and the
rest. Every step only moves text from the rest into the row, so the two parts
together stay the same, and the tree of a source that is read to its end has
that source as its text.
-/

namespace Deinstrument.Go

@[simp]
theorem Node.textItems_append (front back : List (Spaced Node)) :
    textItems (front ++ back) = textItems front ++ textItems back := by
  simp [textItems_eq]

/-- The text of a node with one child at its end. -/
theorem Node.text_single (kind : Kind) (line : Nat) (lead : Text) (child : Node) :
    (Node.mk kind line ⟨lead, [⟨child, []⟩]⟩).text = lead ++ child.text := by
  simp [text, textItems]

namespace Reading

/-- The text of the row followed by the rest of the source. -/
def whole (reading : Reading) : Text :=
  reading.text ++ reading.rest

@[simp]
theorem whole_ofSource (source : Text) : (ofSource source).whole = source := by
  simp [whole, ofSource, text, Node.textItems]

/-! ## Single steps -/

/-- Text that joins the row stands at the end of the row's text. -/
@[simp]
theorem text_pushText (reading : Reading) (added : Text) :
    (reading.pushText added).text = reading.text ++ added := by
  obtain ⟨start, lead, items, line, rest⟩ := reading
  cases items with
  | nil => simp [pushText, text, Node.textItems]
  | cons last earlier => simp [pushText, text, Node.textItems]

@[simp]
theorem whole_consume (reading : Reading) (length : Nat) :
    (reading.consume length).whole = reading.whole := by
  have pushed := text_pushText reading (reading.rest.take length)
  simp only [whole, consume, text] at pushed ⊢
  rw [pushed]
  simp

@[simp]
theorem whole_consumeLeaf (reading : Reading) (kind : Kind) (length : Nat) :
    (reading.consumeLeaf kind length).whole = reading.whole := by
  simp [whole, consumeLeaf, text, Node.textItems, Node.text, Row.ofText]

@[simp]
theorem whole_wrap (reading : Reading) (kind : Kind) :
    (reading.wrap kind).whole = reading.whole := by
  simp [whole, wrap, text, Node.textItems, Node.text]

@[simp]
theorem whole_inner (reading : Reading) : reading.inner.whole = reading.rest := by
  simp [whole, inner, text, Node.textItems]

/-- An inner reading that lost no text joins the outer row without a loss. -/
theorem whole_join {outer inner : Reading} (kept : inner.whole = outer.rest) :
    (outer.join inner).whole = outer.whole := by
  have pushed := text_pushText outer inner.lead
  simp only [whole, text] at kept pushed ⊢
  rw [← kept]
  simp [join, ← List.append_assoc, pushed]

end Reading

/-! ## Whole readings -/

/-- Reading by a form keeps the text of the row and the rest together. -/
theorem read_whole {rules : Phrase → Form} {fuel : Nat} {context : Context} {form : Form}
    {reading next : Reading} (success : read rules fuel context form reading = some next) :
    next.whole = reading.whole := by
  induction fuel generalizing context form reading next with
  | zero => simp [read] at success
  | succ fuel ih =>
      cases form with
      | empty =>
          cases success
          rfl
      | skip =>
          cases success
          exact Reading.whole_consume ..
      | symbol text longer =>
          simp only [read] at success
          split at success <;> cases success
          exact Reading.whole_consume ..
      | keyword word =>
          simp only [read] at success
          split at success <;> cases success
          exact Reading.whole_consume ..
      | leaf kind lexeme =>
          simp only [read] at success
          split at success <;> cases success
          exact Reading.whole_consumeLeaf ..
      | operator choices =>
          simp only [read] at success
          split at success
          · split at success <;> cases success
            rw [Reading.whole_consume, Reading.whole_consume]
          · cases success
      | sameLine =>
          simp only [read] at success
          split at success <;> cases success
          rfl
      | terminator =>
          simp only [read] at success
          split at success
          · cases success
            exact Reading.whole_consume ..
          · split at success <;> cases success
            exact Reading.whole_consume ..
      | literalsAllowed =>
          simp only [read] at success
          split at success <;> cases success
          rfl
      | outsideSwitch =>
          simp only [read] at success
          split at success <;> cases success
          rfl
      | ahead inner =>
          simp only [read] at success
          split at success <;> cases success
          rfl
      | notAhead inner =>
          simp only [read] at success
          split at success <;> cases success
          rfl
      | seq first second =>
          simp only [read] at success
          split at success
          · rename_i middle hfirst
            exact (ih success).trans (ih hfirst)
          · cases success
      | alt first second =>
          simp only [read] at success
          split at success
          · rename_i middle hfirst
            cases success
            exact ih hfirst
          · exact ih success
      | many item =>
          simp only [read] at success
          split at success
          · rename_i middle hitem
            exact (ih success).trans (ih hitem)
          · cases success
            rfl
      | frame inner =>
          simp only [read] at success
          split at success
          · rename_i middle hinner
            cases success
            apply Reading.whole_join
            rw [ih hinner, Reading.whole_inner]
          · cases success
      | wrap kind =>
          cases success
          exact Reading.whole_wrap ..
      | within shift inner => exact ih success
      | phrase phrase => exact ih success

/-- A parsed source is the text of its tree. -/
theorem parse?_text {source : Text} {root : Node} (parsed : parse? source = some root) :
    root.text = source := by
  delta parse? at parsed
  simp only at parsed
  split at parsed
  · cases parsed
  · rename_i reading hread
    split at parsed
    · rename_i hrest
      cases parsed
      have hkept : reading.whole = source := by
        rw [read_whole hread]
        split <;> simp
      rw [List.isEmpty_iff] at hrest
      simpa [Reading.whole, Reading.text, hrest, Node.text] using hkept
    · cases parsed

end Deinstrument.Go
