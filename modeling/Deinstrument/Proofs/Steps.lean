import Deinstrument.Proofs.Reading

/-!
# Enough steps

Reading counts its nested steps down and gives up when none are left. The
grammar has no way back to a form that does not take a character of the source
on it, so the steps that a source is given are never used up: with more of them
the result would be the same. Reading can therefore be described without the
count, one equation for each shape of form, and how far it gets depends on the
rest of the source alone.
-/

namespace Deinstrument.Go

/-! ## Lexemes take characters -/

namespace Measure

/-- What the measure accepts has a first character, of a given class. -/
def Starts (accepts : Char → Bool) (measure : Measure) : Prop :=
  ∀ text length, measure text = some length →
    0 < length ∧ ∃ first rest, text = first :: rest ∧ accepts first = true

/-- The characters with which numbers start. -/
def isNumberStart (character : Char) : Bool :=
  character.isDigit || character == '.'

namespace Starts

variable {accepts : Char → Bool}

theorem one {group : Char → Bool}
    (accepted : ∀ character, group character = true → accepts character = true) :
    Starts accepts (Measure.one group) := by
  intro text length found
  cases text with
  | nil => cases found
  | cons first rest =>
      simp only [Measure.one] at found
      split at found <;> cases found
      rename_i hgroup
      exact ⟨Nat.one_pos, first, rest, rfl, accepted first hgroup⟩

theorem char {wanted : Char} (accepted : accepts wanted = true) :
    Starts accepts (Measure.char wanted) := by
  refine .one fun character hcharacter => ?_
  rwa [beq_iff_eq.mp hcharacter]

theorem both {first : Measure} (starts : Starts accepts first) (second : Measure) :
    Starts accepts (Measure.both first second) := by
  intro text length found
  simp only [Measure.both] at found
  split at found
  · cases found
  · rename_i front hfront
    obtain ⟨back, -, rfl⟩ := Option.map_eq_some_iff.mp found
    obtain ⟨hlength, htext⟩ := starts text front hfront
    exact ⟨Nat.add_pos_left hlength back, htext⟩

theorem all {measure : Measure} (starts : Starts accepts measure) (rest : List Measure) :
    Starts accepts (Measure.all (measure :: rest)) :=
  starts.both (Measure.all rest)

theorem longest {measures : List Measure} (starts : ∀ measure ∈ measures, Starts accepts measure) :
    Starts accepts (Measure.longest measures) := by
  intro text
  refine List.foldlRecOn
    (motive := fun best => ∀ length, best = some length →
      0 < length ∧ ∃ first rest, text = first :: rest ∧ accepts first = true) measures _
    (fun length hnone => by cases hnone) ?_
  intro best hbest measure member length found
  split at found
  · cases found
    obtain ⟨hlength, htext⟩ := hbest _ rfl
    exact ⟨Nat.lt_of_lt_of_le hlength (Nat.le_max_left _ _), htext⟩
  · exact starts measure member text length found
  · exact hbest length found

theorem digits : Starts isNumberStart (Measure.digits .decimal) := by
  intro text length found
  cases text with
  | nil => cases found
  | cons first rest =>
      simp only [Measure.digits] at found
      split at found <;> cases found
      rename_i hdigit
      exact ⟨Nat.add_pos_left Nat.one_pos _, first, rest, rfl,
        Bool.or_eq_true_iff.mpr (.inl hdigit)⟩

theorem word : Starts Text.isIdentifierStart Measure.word := by
  intro text length found
  cases text with
  | nil => cases found
  | cons first rest =>
      simp only [Measure.word] at found
      split at found <;> cases found
      rename_i hfirst
      exact ⟨Nat.add_pos_left Nat.one_pos _, first, rest, rfl, hfirst⟩

theorem integer : Starts isNumberStart Measure.integer := by
  have hnonzero : Starts isNumberStart
      (Measure.one fun character => '1' ≤ character && character ≤ '9') := by
    refine .one fun character hrange => ?_
    obtain ⟨hlow, hhigh⟩ := Bool.and_eq_true_iff.mp hrange
    have hdigit : character.isDigit = true :=
      Bool.and_eq_true_iff.mpr ⟨decide_eq_true (Nat.le_trans (by decide) (of_decide_eq_true hlow)),
        hhigh⟩
    exact Bool.or_eq_true_iff.mpr (.inl hdigit)
  refine .longest ?_
  simp only [List.forall_mem_cons, List.not_mem_nil, false_implies, implies_true, and_true]
  exact ⟨.all (.char rfl) _, .char rfl, hnonzero.both _, .all (.char rfl) _, .all (.char rfl) _⟩

theorem float : Starts isNumberStart Measure.float := by
  refine .longest ?_
  simp only [List.forall_mem_cons, List.not_mem_nil, false_implies, implies_true, and_true]
  exact ⟨digits.all _, digits.all _, .all (.char rfl) _, .all (.char rfl) _⟩

theorem imaginary : Starts isNumberStart Measure.imaginary := by
  refine .longest ?_
  simp only [List.forall_mem_cons, List.not_mem_nil, false_implies, implies_true, and_true]
  exact ⟨digits.all _, integer.all _, float.all _⟩

theorem stringRun : Starts (fun _ => true) Measure.stringRun := by
  intro text length found
  simp only [Measure.stringRun] at found
  split at found
  · cases found
  · rename_i hlength
    cases found
    cases text with
    | nil => exact absurd rfl hlength
    | cons first rest => exact ⟨Nat.pos_of_ne_zero hlength, first, rest, rfl, rfl⟩

theorem ofSort {sort : Measure} (starts : Starts accepts sort) :
    Starts accepts (Measure.ofSort sort) := by
  intro text length found
  simp only [Measure.ofSort] at found
  split at found
  · exact starts text length found
  · cases found

end Starts

end Measure

namespace Lexeme

/-- Whether every lexeme of the class has a character. -/
def takes : Lexeme → Bool
  | .rawRun => false
  | _ => true

/-- The characters with which the lexemes of a class start. -/
def isFirst : Lexeme → Char → Bool
  | .word _ | .exactly _ => Text.isIdentifierStart
  | .integer | .float | .imaginary => Measure.isNumberStart
  | .rune => (· == '\'')
  | _ => fun _ => true

theorem starts (lexeme : Lexeme) (takes : lexeme.takes = true) :
    Measure.Starts lexeme.isFirst lexeme.length? := by
  intro text length found
  cases lexeme with
  | word reserved =>
      simp only [length?] at found
      split at found
      · rename_i measured hmeasured
        split at found <;> cases found
        exact Measure.Starts.word text length hmeasured
      · cases found
  | exactly wanted =>
      simp only [length?] at found
      split at found
      · rename_i measured hmeasured
        split at found <;> cases found
        exact Measure.Starts.word text length hmeasured
      · cases found
  | integer => exact Measure.Starts.integer.ofSort text length found
  | float => exact Measure.Starts.float.ofSort text length found
  | imaginary => exact Measure.Starts.imaginary.ofSort text length found
  | rune => exact Measure.Starts.all (.char rfl) _ text length found
  | stringRun => exact Measure.Starts.stringRun text length found
  | escape => exact Measure.Starts.both (.char rfl) _ text length found
  | rawRun => cases takes

theorem positive (lexeme : Lexeme) (takes : lexeme.takes = true) {text : Text} {length : Nat}
    (found : lexeme.length? text = some length) : 0 < length ∧ text ≠ [] := by
  obtain ⟨hlength, first, rest, rfl, -⟩ := lexeme.starts takes text length found
  exact ⟨hlength, List.cons_ne_nil _ _⟩

end Lexeme

theorem longestOf_isPrefixOf {choices : List Text} {text found : Text}
    (longest : longestOf choices text = some found) : found.isPrefixOf text = true := by
  refine List.foldlRecOn
    (motive := fun best => ∀ found, best = some found → found.isPrefixOf text = true) choices _
    (fun found hnone => by cases hnone) ?_ found longest
  intro best hbest choice _ found hfound
  split at hfound
  · rename_i hchoice
    split at hfound
    · split at hfound <;> cases hfound
      · exact hchoice
      · exact hbest _ rfl
    · cases hfound
      exact hchoice
  · exact hbest _ hfound

/-! ## Steps without parts -/

namespace Form

/-- Whether a form is read in one step, without reading parts of it. -/
def isAtom : Form → Bool
  | empty | skip | symbol _ _ | keyword _ | leaf _ _ | operator _ | sameLine | terminator
  | literalsAllowed | outsideSwitch => true
  | _ => false

/-- The number of characters that a form without parts takes. -/
def length? (context : Context) : Form → Text → Option Nat
  | empty, _ => some 0
  | skip, text => some (blankLength text)
  | symbol wanted longer, text =>
      if wanted.isPrefixOf text && !longer.any (·.isPrefixOf text) then some wanted.length
      else none
  | keyword word, text => (Lexeme.exactly word).length? text
  | leaf _ lexeme, text => lexeme.length? text
  | operator choices, text =>
      match operatorAt context (text.drop (blankLength text)) with
      | some found =>
          if choices.contains found then some (blankLength text + found.length) else none
      | none => none
  | sameLine, text => if context.lineEnds && breakAhead text then none else some 0
  | terminator, text =>
      match text.drop (inlineLength text) with
      | [] => some (inlineLength text)
      | next :: _ => if next == '\n' || next == ';' then some (inlineLength text + 1) else none
  | literalsAllowed, _ => if context.literals then some 0 else none
  | outsideSwitch, _ => if context.typeSwitch then none else some 0
  | _, _ => none

/-- What becomes of a reading when a form without parts takes characters. -/
def take (form : Form) (reading : Reading) (length : Nat) : Reading :=
  match form with
  | leaf kind _ => reading.consumeLeaf kind length
  | _ => reading.consume length

end Form

namespace Reading

theorem pushText_nil (reading : Reading) : reading.pushText [] = reading := by
  obtain ⟨start, lead, items, line, rest⟩ := reading
  cases items with
  | nil => simp [pushText]
  | cons last earlier => simp [pushText]

@[simp]
theorem consume_zero (reading : Reading) : reading.consume 0 = reading := by
  simp [consume, pushText_nil, Text.breaks]

@[simp]
theorem rest_consume (reading : Reading) (length : Nat) :
    (reading.consume length).rest = reading.rest.drop length := rfl

theorem consume_consume (reading : Reading) (first second : Nat) :
    (reading.consume first).consume second = reading.consume (first + second) := by
  obtain ⟨start, lead, items, line, rest⟩ := reading
  have htake : rest.take (first + second) = rest.take first ++ (rest.drop first).take second :=
    List.take_add
  cases items with
  | nil => simp [consume, pushText, htake, Text.breaks, Nat.add_assoc]
  | cons last earlier => simp [consume, pushText, htake, Text.breaks, Nat.add_assoc]

@[simp]
theorem rest_take (form : Form) (reading : Reading) (length : Nat) :
    (form.take reading length).rest = reading.rest.drop length := by
  cases form <;> rfl

end Reading

/-- The forms by what reading them does first. -/
@[elab_as_elim]
theorem Form.casesAtom {motive : Form → Prop}
    (atom : ∀ form : Form, form.isAtom = true → motive form)
    (ahead : ∀ form, motive (.ahead form)) (notAhead : ∀ form, motive (.notAhead form))
    (seq : ∀ first second, motive (.seq first second))
    (alt : ∀ first second, motive (.alt first second)) (many : ∀ form, motive (.many form))
    (frame : ∀ form, motive (.frame form)) (wrap : ∀ kind, motive (.wrap kind))
    (within : ∀ shift form, motive (.within shift form))
    (phrase : ∀ phrase, motive (.phrase phrase)) (form : Form) : motive form := by
  cases form with
  | ahead form => exact ahead form
  | notAhead form => exact notAhead form
  | seq first second => exact seq first second
  | alt first second => exact alt first second
  | many form => exact many form
  | frame form => exact frame form
  | wrap kind => exact wrap kind
  | within shift form => exact within shift form
  | phrase name => exact phrase name
  | _ => exact atom _ rfl

section Read

variable {rules : Phrase → Form} {fuel : Nat} {context : Context} {reading : Reading}

theorem read_atom {form : Form} (atom : form.isAtom = true) :
    read rules (fuel + 1) context form reading =
      (form.length? context reading.rest).map (form.take reading) := by
  cases form with
  | empty => simp [read, Form.length?, Form.take]
  | skip => rfl
  | symbol wanted longer =>
      simp only [read, Form.length?]
      split <;> rfl
  | keyword word =>
      simp only [read, Form.length?]
      cases (Lexeme.exactly word).length? reading.rest <;> rfl
  | leaf kind lexeme =>
      simp only [read, Form.length?]
      cases lexeme.length? reading.rest <;> rfl
  | operator choices =>
      simp only [read, Form.length?, Reading.rest_consume]
      cases operatorAt context (reading.rest.drop (blankLength reading.rest)) with
      | none => rfl
      | some found =>
          simp only
          split
          · rw [Reading.consume_consume]
            rfl
          · rfl
  | sameLine =>
      simp only [read, Form.length?]
      split <;> simp [Form.take]
  | terminator =>
      simp only [read, Form.length?]
      cases reading.rest.drop (inlineLength reading.rest) with
      | nil => rfl
      | cons next later =>
          simp only
          split <;> rfl
  | literalsAllowed =>
      simp only [read, Form.length?]
      split <;> simp [Form.take]
  | outsideSwitch =>
      simp only [read, Form.length?]
      split <;> simp [Form.take]
  | _ => cases atom

theorem read_ahead (form : Form) :
    read rules (fuel + 1) context (.ahead form) reading =
      (read rules fuel context form reading).map fun _ => reading := by
  rw [read]
  cases read rules fuel context form reading <;> rfl

theorem read_notAhead (form : Form) :
    read rules (fuel + 1) context (.notAhead form) reading =
      if (read rules fuel context form reading).isSome then none else some reading := by
  rw [read]
  cases read rules fuel context form reading <;> rfl

theorem read_seq (first second : Form) :
    read rules (fuel + 1) context (.seq first second) reading =
      (read rules fuel context first reading).bind (read rules fuel context second) := by
  rw [read]
  cases read rules fuel context first reading <;> rfl

theorem read_alt (first second : Form) :
    read rules (fuel + 1) context (.alt first second) reading =
      (read rules fuel context first reading).or (read rules fuel context second reading) := by
  rw [read]
  cases read rules fuel context first reading <;> rfl

theorem read_many (form : Form) :
    read rules (fuel + 1) context (.many form) reading =
      (read rules fuel context form reading).elim (some reading)
        (read rules fuel context (.many form)) := by
  rw [read]
  cases read rules fuel context form reading <;> rfl

theorem read_frame (form : Form) :
    read rules (fuel + 1) context (.frame form) reading =
      (read rules fuel context form reading.inner).map reading.join := by
  rw [read]
  cases read rules fuel context form reading.inner <;> rfl

end Read

/-! ## Forms take characters -/

/-- Whether reading the phrase takes a character. -/
def Phrase.takes : Phrase → Bool
  | .simpleTail => false
  | _ => true

namespace Form

/-- Whether reading by the form takes a character, as far as its shape tells. -/
def takes : Form → Bool
  | symbol wanted _ => !wanted.isEmpty
  | keyword _ => true
  | leaf _ lexeme => lexeme.takes
  | operator choices => choices.all fun choice => !choice.isEmpty
  | seq first second => first.takes || second.takes
  | alt first second => first.takes && second.takes
  | frame form => form.takes
  | within _ form => form.takes
  | phrase name => name.takes
  | _ => false

theorem length?_takes {context : Context} {form : Form} {text : Text} {length : Nat}
    (takes : form.takes = true) (found : form.length? context text = some length) :
    (text.drop length).length < text.length := by
  have hdrop (hpositive : 0 < length ∧ text ≠ []) : (text.drop length).length < text.length := by
    have := List.length_pos_iff.mpr hpositive.2
    rw [List.length_drop]
    omega
  cases form with
  | symbol wanted longer =>
      simp only [length?] at found
      split at found
      · rename_i hmatch
        cases found
        obtain ⟨hstarts, -⟩ := Bool.and_eq_true_iff.mp hmatch
        have hwanted : wanted ≠ [] := by simpa [Form.takes] using takes
        refine hdrop ⟨List.length_pos_iff.mpr hwanted, ?_⟩
        rintro rfl
        exact hwanted (List.prefix_nil.mp (List.isPrefixOf_iff_prefix.mp hstarts))
      · cases found
  | keyword word => exact hdrop (Lexeme.positive (.exactly word) rfl found)
  | leaf kind lexeme => exact hdrop (Lexeme.positive lexeme takes found)
  | operator choices =>
      simp only [length?] at found
      split at found
      · rename_i symbol hsymbol
        split at found
        · rename_i hchoice
          cases found
          have hne : symbol ≠ [] := by
            have := List.all_eq_true.mp takes symbol (List.contains_iff_mem.mp hchoice)
            simpa using this
          have hstarts := List.isPrefixOf_iff_prefix.mp (longestOf_isPrefixOf hsymbol)
          have hlength := hstarts.length_le
          have hpos := List.length_pos_iff.mpr hne
          rw [List.length_drop] at hlength ⊢
          omega
        · cases found
      · cases found
  | _ => first | cases takes | cases found

end Form

/-! ## Nested steps -/

/-- A bound on the nested steps in which a phrase is read up to the first
character that it takes. -/
def Phrase.depth : Phrase → Nat
  | .statements => 105
  | .statement => 100
  | .simple | .expressionList | .literalElement => 80
  | .expression => 75
  | .conjunction => 70
  | .comparison => 65
  | .sum => 60
  | .product => 55
  | .unary => 50
  | .primary => 45
  | .operand => 40
  | .typeElem | .fieldDeclaration => 30
  | .type | .result => 25
  | .simpleType | .suffix | .importSpec => 20
  | _ => 10

namespace Form

/-- The nested steps in which a form is read up to the first character that it
takes. -/
def depth : Form → Nat
  | ahead form => form.depth + 1
  | notAhead form => form.depth + 1
  | seq first second => max first.depth (if first.takes then 0 else second.depth) + 1
  | alt first second => max first.depth second.depth + 1
  | many form => form.depth + 1
  | frame form => form.depth + 1
  | within _ form => form.depth + 1
  | phrase name => name.depth + 1
  | _ => 1

/-- Whether 200 nested steps for each character suffice for a form: its parts
are not too deep, and what it repeats takes characters. -/
def fits : Form → Bool
  | ahead form => form.fits
  | notAhead form => form.fits
  | seq first second => first.fits && second.fits && decide (second.depth ≤ 200)
  | alt first second => first.fits && second.fits
  | many form => form.fits && form.takes && decide (form.depth < 200)
  | frame form => form.fits
  | within _ form => form.fits
  | _ => true

theorem depth_pos (form : Form) : 0 < form.depth := by
  cases form <;> simp [depth]

end Form

theorem form_takes {phrase : Phrase} (takes : phrase.takes = true) :
    (form phrase).takes = true := by
  cases phrase <;> first | decide +kernel | cases takes

theorem form_depth (phrase : Phrase) : (form phrase).depth ≤ phrase.depth := by
  cases phrase <;> decide +kernel

theorem form_fits (phrase : Phrase) : (form phrase).fits = true := by
  cases phrase <;> decide +kernel

/-- Reading does not add to the rest of the source, and shortens it where the
form takes a character. -/
theorem length_rest_of_read {fuel : Nat} {context : Context} {shape : Form}
    {reading next : Reading} (success : read form fuel context shape reading = some next) :
    next.rest.length ≤ reading.rest.length ∧
      (shape.takes = true → next.rest.length < reading.rest.length) := by
  induction fuel generalizing context shape reading next with
  | zero => simp [read] at success
  | succ fuel ih =>
      cases shape using Form.casesAtom with
      | atom shape atom =>
          rw [read_atom atom] at success
          obtain ⟨length, hlength, rfl⟩ := Option.map_eq_some_iff.mp success
          rw [Reading.rest_take]
          exact ⟨(List.drop_sublist _ _).length_le, fun takes => Form.length?_takes takes hlength⟩
      | ahead inner =>
          rw [read_ahead] at success
          obtain ⟨-, -, rfl⟩ := Option.map_eq_some_iff.mp success
          exact ⟨Nat.le_refl _, fun takes => by cases takes⟩
      | notAhead inner =>
          rw [read_notAhead] at success
          split at success <;> cases success
          exact ⟨Nat.le_refl _, fun takes => by cases takes⟩
      | seq first second =>
          rw [read_seq] at success
          obtain ⟨middle, hfirst, hsecond⟩ := Option.bind_eq_some_iff.mp success
          obtain ⟨hfirstLe, hfirstTakes⟩ := ih hfirst
          obtain ⟨hsecondLe, hsecondTakes⟩ := ih hsecond
          refine ⟨Nat.le_trans hsecondLe hfirstLe, fun takes => ?_⟩
          rcases Bool.or_eq_true_iff.mp takes with takes | takes
          · exact Nat.lt_of_le_of_lt hsecondLe (hfirstTakes takes)
          · exact Nat.lt_of_lt_of_le (hsecondTakes takes) hfirstLe
      | alt first second =>
          rw [read_alt] at success
          rcases Option.or_eq_some_iff.mp success with hfirst | ⟨-, hsecond⟩
          · exact ⟨(ih hfirst).1, fun takes => (ih hfirst).2 (Bool.and_eq_true_iff.mp takes).1⟩
          · exact ⟨(ih hsecond).1, fun takes => (ih hsecond).2 (Bool.and_eq_true_iff.mp takes).2⟩
      | many inner =>
          rw [read_many] at success
          refine ⟨?_, fun takes => by cases takes⟩
          cases hinner : read form fuel context inner reading with
          | none =>
              rw [hinner] at success
              cases success
              exact Nat.le_refl _
          | some middle =>
              rw [hinner] at success
              exact Nat.le_trans (ih success).1 (ih hinner).1
      | frame inner =>
          rw [read_frame] at success
          obtain ⟨middle, hinner, rfl⟩ := Option.map_eq_some_iff.mp success
          exact ⟨(ih hinner).1, (ih hinner).2⟩
      | wrap kind =>
          cases success
          exact ⟨Nat.le_refl _, fun takes => by cases takes⟩
      | within shift inner =>
          have hinner : read form fuel (context.shift shift) inner reading = some next := success
          exact ⟨(ih hinner).1, (ih hinner).2⟩
      | phrase name =>
          have hform : read form fuel context (form name) reading = some next := success
          exact ⟨(ih hform).1, fun takes => (ih hform).2 (form_takes takes)⟩

/-- The nested steps that suffice to read a text by a form. -/
def stepsFor (shape : Form) (text : Text) : Nat :=
  200 * text.length + shape.depth

/-- One more step makes no difference if there were enough of them. -/
theorem read_succ_of_enough {fuel : Nat} {context : Context} {shape : Form} {reading : Reading}
    (fits : shape.fits = true) (enough : stepsFor shape reading.rest ≤ fuel) :
    read form (fuel + 1) context shape reading = read form fuel context shape reading := by
  induction fuel generalizing context shape reading with
  | zero =>
      have := shape.depth_pos
      simp only [stepsFor] at enough
      omega
  | succ fuel ih =>
      simp only [stepsFor] at enough ih
      cases shape using Form.casesAtom with
      | atom shape atom => rw [read_atom atom, read_atom atom]
      | ahead inner =>
          simp only [Form.depth] at enough
          have hinner : inner.fits = true := fits
          rw [read_ahead, read_ahead, ih hinner (by omega)]
      | notAhead inner =>
          simp only [Form.depth] at enough
          have hinner : inner.fits = true := fits
          rw [read_notAhead, read_notAhead, ih hinner (by omega)]
      | seq first second =>
          simp only [Form.fits, Bool.and_eq_true, decide_eq_true_eq] at fits
          obtain ⟨⟨hfirst, hsecond⟩, hdepth⟩ := fits
          simp only [Form.depth] at enough
          rw [read_seq, read_seq, ih hfirst (by omega)]
          refine Option.bind_congr fun middle hmiddle => ih hsecond ?_
          -- The second form comes after a character, or counts for the depth of the whole.
          obtain ⟨hle, htakes⟩ := length_rest_of_read hmiddle
          split at enough
          · rename_i takes
            have := htakes takes
            omega
          · omega
      | alt first second =>
          obtain ⟨hfirst, hsecond⟩ := Bool.and_eq_true_iff.mp fits
          simp only [Form.depth] at enough
          rw [read_alt, read_alt, ih hfirst (by omega), ih hsecond (by omega)]
      | many inner =>
          have hmany := fits
          simp only [Form.fits, Bool.and_eq_true, decide_eq_true_eq] at fits
          obtain ⟨⟨hinner, takes⟩, hdepth⟩ := fits
          simp only [Form.depth] at enough
          rw [read_many, read_many, ih hinner (by omega)]
          cases hread : read form fuel context inner reading with
          | none => rfl
          | some middle =>
              refine ih hmany ?_
              have := (length_rest_of_read hread).2 takes
              simp only [Form.depth]
              omega
      | frame inner =>
          simp only [Form.depth] at enough
          have hinner : inner.fits = true := fits
          have hrest : reading.inner.rest = reading.rest := rfl
          rw [read_frame, read_frame, ih hinner (by rw [hrest]; omega)]
      | wrap kind => rfl
      | within shift inner =>
          simp only [Form.depth] at enough
          have hinner : inner.fits = true := fits
          exact ih hinner (by omega)
      | phrase name =>
          simp only [Form.depth] at enough
          have := form_depth name
          exact ih (form_fits name) (by omega)

theorem read_of_enough {fuel : Nat} {context : Context} {shape : Form} {reading : Reading}
    (fits : shape.fits = true) (enough : stepsFor shape reading.rest ≤ fuel) :
    read form fuel context shape reading =
      read form (stepsFor shape reading.rest) context shape reading := by
  obtain ⟨more, rfl⟩ := Nat.exists_eq_add_of_le enough
  induction more with
  | zero => rfl
  | succ more ih =>
      have hmore : stepsFor shape reading.rest ≤ stepsFor shape reading.rest + more :=
        Nat.le_add_right _ _
      rw [← Nat.add_assoc, read_succ_of_enough fits hmore, ih hmore]

/-! ## Reading without a count -/

/-- Read by a form of the grammar in as many steps as it takes. -/
def run (context : Context) (shape : Form) (reading : Reading) : Option Reading :=
  read form (stepsFor shape reading.rest) context shape reading

section Run

variable {context : Context} {reading next : Reading}

theorem read_eq_run {fuel : Nat} {shape : Form} (fits : shape.fits = true)
    (enough : stepsFor shape reading.rest ≤ fuel) :
    read form fuel context shape reading = run context shape reading :=
  read_of_enough fits enough

theorem length_rest_of_run {shape : Form} (success : run context shape reading = some next) :
    next.rest.length ≤ reading.rest.length :=
  (length_rest_of_read success).1

theorem run_whole {shape : Form} (success : run context shape reading = some next) :
    next.whole = reading.whole :=
  read_whole success

theorem run_atom {shape : Form} (atom : shape.isAtom = true) :
    run context shape reading = (shape.length? context reading.rest).map (shape.take reading) := by
  obtain ⟨fuel, hfuel⟩ := Nat.exists_eq_add_of_lt shape.depth_pos
  rw [run, stepsFor, hfuel, ← Nat.add_assoc, read_atom atom]

theorem run_wrap (kind : Kind) : run context (.wrap kind) reading = some (reading.wrap kind) := rfl

theorem run_ahead {inner : Form} (fits : inner.fits = true) :
    run context (.ahead inner) reading = (run context inner reading).map fun _ => reading := by
  have hsteps : stepsFor (.ahead inner) reading.rest = stepsFor inner reading.rest + 1 := rfl
  rw [run, hsteps, read_ahead, read_eq_run fits (Nat.le_refl _)]

theorem run_notAhead {inner : Form} (fits : inner.fits = true) :
    run context (.notAhead inner) reading =
      if (run context inner reading).isSome then none else some reading := by
  have hsteps : stepsFor (.notAhead inner) reading.rest = stepsFor inner reading.rest + 1 := rfl
  rw [run, hsteps, read_notAhead, read_eq_run fits (Nat.le_refl _)]

theorem run_frame {inner : Form} (fits : inner.fits = true) :
    run context (.frame inner) reading =
      (run context inner reading.inner).map reading.join := by
  have hsteps : stepsFor (.frame inner) reading.rest =
      stepsFor inner reading.inner.rest + 1 := rfl
  rw [run, hsteps, read_frame, read_eq_run fits (Nat.le_refl _)]

theorem run_within {inner : Form} (fits : inner.fits = true) (shift : Shift) :
    run context (.within shift inner) reading = run (context.shift shift) inner reading :=
  read_eq_run fits (Nat.le_refl _)

theorem run_phrase (name : Phrase) :
    run context (.phrase name) reading = run context (form name) reading :=
  read_eq_run (form_fits name) (Nat.add_le_add_left (form_depth name) _)

theorem run_alt {first second : Form} (fits : (Form.alt first second).fits = true) :
    run context (.alt first second) reading =
      (run context first reading).or (run context second reading) := by
  obtain ⟨hfirst, hsecond⟩ := Bool.and_eq_true_iff.mp fits
  have hsteps : stepsFor (.alt first second) reading.rest =
      200 * reading.rest.length + max first.depth second.depth + 1 := rfl
  rw [run, hsteps, read_alt,
    read_eq_run hfirst (Nat.add_le_add_left (Nat.le_max_left _ _) _),
    read_eq_run hsecond (Nat.add_le_add_left (Nat.le_max_right _ _) _)]

theorem run_seq {first second : Form} (fits : (Form.seq first second).fits = true) :
    run context (.seq first second) reading =
      (run context first reading).bind (run context second) := by
  have hparts := fits
  simp only [Form.fits, Bool.and_eq_true] at hparts
  obtain ⟨⟨hfirst, hsecond⟩, -⟩ := hparts
  let fuel := 200 * reading.rest.length + (first.depth + second.depth)
  have hwhole : stepsFor (.seq first second) reading.rest ≤ fuel + 1 := by
    simp only [stepsFor, Form.depth, fuel]
    split <;> omega
  have hfirstSteps : stepsFor first reading.rest ≤ fuel := by
    simp only [stepsFor, fuel]
    omega
  rw [← read_eq_run fits hwhole, read_seq, read_eq_run hfirst hfirstSteps]
  refine Option.bind_congr fun middle hmiddle => read_eq_run hsecond ?_
  have := length_rest_of_run hmiddle
  simp only [stepsFor, fuel]
  omega

theorem run_many {inner : Form} (fits : (Form.many inner).fits = true) :
    run context (.many inner) reading =
      (run context inner reading).elim (some reading) (run context (.many inner)) := by
  have hparts := fits
  simp only [Form.fits, Bool.and_eq_true] at hparts
  obtain ⟨⟨hinner, -⟩, -⟩ := hparts
  let fuel := stepsFor (.many inner) reading.rest
  have hinnerSteps : stepsFor inner reading.rest ≤ fuel :=
    Nat.add_le_add_left (Nat.le_succ _) _
  rw [← read_eq_run fits (Nat.le_succ fuel), read_many, read_eq_run hinner hinnerSteps]
  cases hmiddle : run context inner reading with
  | none => rfl
  | some middle =>
      have := length_rest_of_run hmiddle
      refine read_eq_run fits ?_
      simp only [stepsFor, fuel]
      omega

end Run

/-! ## The rest of the source decides -/

/-- Two readings that both fail or both leave the same rest. -/
def SameRest (first second : Option Reading) : Prop :=
  first.map (·.rest) = second.map (·.rest)

theorem sameRest_iff {first second : Option Reading} :
    SameRest first second ↔ (first = none ∧ second = none) ∨
      ∃ one other, first = some one ∧ second = some other ∧ one.rest = other.rest := by
  cases first with
  | none => cases second <;> simp [SameRest]
  | some one => cases second <;> simp [SameRest]

/-- Whether reading succeeds, and with which rest, depends on the rest only. -/
theorem read_sameRest {rules : Phrase → Form} {fuel : Nat} {context : Context} {shape : Form}
    {reading other : Reading} (same : reading.rest = other.rest) :
    SameRest (read rules fuel context shape reading) (read rules fuel context shape other) := by
  induction fuel generalizing context shape reading other with
  | zero => rfl
  | succ fuel ih =>
      cases shape using Form.casesAtom with
      | atom shape atom =>
          rw [read_atom atom, read_atom atom, same]
          cases shape.length? context other.rest with
          | none => rfl
          | some length => simp [SameRest, same]
      | ahead inner =>
          rw [read_ahead, read_ahead]
          rcases sameRest_iff.mp (ih same) with ⟨hone, hother⟩ | ⟨one, two, hone, hother, -⟩
          · rw [hone, hother]
            rfl
          · rw [hone, hother]
            exact congrArg some same
      | notAhead inner =>
          rw [read_notAhead, read_notAhead]
          rcases sameRest_iff.mp (ih same) with ⟨hone, hother⟩ | ⟨one, two, hone, hother, -⟩
          · rw [hone, hother]
            exact congrArg some same
          · rw [hone, hother]
            rfl
      | seq first second =>
          rw [read_seq, read_seq]
          rcases sameRest_iff.mp (ih same) with ⟨hone, hother⟩ | ⟨one, two, hone, hother, hrest⟩
          · rw [hone, hother]
            rfl
          · rw [hone, hother]
            exact ih hrest
      | alt first second =>
          rw [read_alt, read_alt]
          rcases sameRest_iff.mp (ih same) with ⟨hone, hother⟩ | ⟨one, two, hone, hother, hrest⟩
          · rw [hone, hother]
            exact ih same
          · rw [hone, hother]
            exact congrArg some hrest
      | many inner =>
          rw [read_many, read_many]
          rcases sameRest_iff.mp (ih same) with ⟨hone, hother⟩ | ⟨one, two, hone, hother, hrest⟩
          · rw [hone, hother]
            exact congrArg some same
          · rw [hone, hother]
            exact ih hrest
      | frame inner =>
          rw [read_frame, read_frame]
          have hinner : reading.inner.rest = other.inner.rest := same
          rcases sameRest_iff.mp (ih hinner) with ⟨hone, hother⟩ | ⟨one, two, hone, hother, hrest⟩
          · rw [hone, hother]
            rfl
          · rw [hone, hother]
            exact congrArg some hrest
      | wrap kind => exact congrArg some same
      | within shift inner => exact ih same
      | phrase name => exact ih same

/-- The text behind what a form takes from the front of a text. -/
def after (context : Context) (shape : Form) (text : Text) : Option Text :=
  (run context shape (.ofSource text)).map (·.rest)

section After

variable {context : Context} {text : Text}

theorem rest_run (context : Context) (shape : Form) (reading : Reading) :
    (run context shape reading).map (·.rest) = after context shape reading.rest :=
  read_sameRest rfl

theorem after_of_run {shape : Form} {reading next : Reading}
    (success : run context shape reading = some next) :
    after context shape reading.rest = some next.rest := by
  rw [← rest_run, success]
  rfl

/-- What a form takes stands in front of what it leaves. -/
theorem suffix_of_after {shape : Form} {rest : Text}
    (success : after context shape text = some rest) : rest <:+ text := by
  obtain ⟨next, hnext, rfl⟩ := Option.map_eq_some_iff.mp success
  have hwhole := run_whole hnext
  rw [Reading.whole_ofSource] at hwhole
  exact ⟨next.text, hwhole⟩

theorem after_atom {shape : Form} (atom : shape.isAtom = true) :
    after context shape text = (shape.length? context text).map text.drop := by
  rw [after, run_atom atom, Option.map_map]
  refine congrArg (Option.map · _) (funext fun length => ?_)
  exact Reading.rest_take ..

theorem after_frame {inner : Form} (fits : inner.fits = true) :
    after context (.frame inner) text = after context inner text := by
  rw [after, run_frame fits, Option.map_map]
  exact rest_run context inner (Reading.ofSource text).inner

theorem after_within {inner : Form} (fits : inner.fits = true) (shift : Shift) :
    after context (.within shift inner) text = after (context.shift shift) inner text := by
  rw [after, run_within fits]
  rfl

theorem after_phrase (name : Phrase) :
    after context (.phrase name) text = after context (form name) text := by
  rw [after, run_phrase]
  rfl

theorem after_notAhead {inner : Form} (fits : inner.fits = true) :
    after context (.notAhead inner) text =
      if (after context inner text).isSome then none else some text := by
  rw [after, run_notAhead fits, after, Option.isSome_map]
  split <;> rfl

theorem after_alt {first second : Form} (fits : (Form.alt first second).fits = true) :
    after context (.alt first second) text =
      (after context first text).or (after context second text) := by
  rw [after, run_alt fits, after, after]
  cases run context first (.ofSource text) <;> rfl

theorem after_seq {first second : Form} (fits : (Form.seq first second).fits = true) :
    after context (.seq first second) text =
      (after context first text).bind (after context second) := by
  rw [after, run_seq fits, after]
  cases run context first (.ofSource text) with
  | none => rfl
  | some middle => exact rest_run context second middle

theorem after_many {inner : Form} (fits : (Form.many inner).fits = true) :
    after context (.many inner) text =
      (after context inner text).elim (some text) (after context (.many inner)) := by
  rw [after, run_many fits, after]
  cases run context inner (.ofSource text) with
  | none => rfl
  | some middle => exact rest_run context (.many inner) middle

end After

end Deinstrument.Go
