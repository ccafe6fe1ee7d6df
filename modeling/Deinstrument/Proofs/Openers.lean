import Deinstrument.Proofs.TopLevel

/-!
# How items start

Every phrase of the grammar that can stand in a source file starts, behind
blanks, with a character that is neither a blank of any sort nor a closing
parenthesis. So a parenthesis is never the next thing behind an import
declaration.
-/

namespace Deinstrument.Go

open Form

/-- A character that can open an item of a source. -/
def isOpener (character : Char) : Bool :=
  isMark character && character != ')'

/-- A text that starts, behind blanks, with a character that can open an item. -/
def Opens (text : Text) : Prop :=
  ∃ first rest, afterBlanks text = first :: rest ∧ isOpener first = true

theorem opens_cons {first : Char} (opener : isOpener first = true) (rest : Text) :
    Opens (first :: rest) :=
  ⟨first, rest, afterBlanks_mark (Bool.and_eq_true_iff.mp opener).1 rest, opener⟩

theorem isOpener_of_isIdentifierStart {character : Char}
    (starts : Text.isIdentifierStart character = true) : isOpener character = true := by
  refine Bool.and_eq_true_iff.mpr ⟨isMark_of_isIdentifierStart starts, bne_iff_ne.mpr ?_⟩
  rintro rfl
  cases starts

theorem isOpener_of_isNumberStart {character : Char}
    (starts : Measure.isNumberStart character = true) : isOpener character = true := by
  rcases Bool.or_eq_true_iff.mp starts with hdigit | hdot
  · have hcodes : ∀ code ∈ List.range 58, 48 ≤ code → isOpener (Char.ofNat code) = true := by
      decide +kernel
    obtain ⟨hlow, hhigh⟩ := Bool.and_eq_true_iff.mp hdigit
    have hlow : 48 ≤ character.toNat := of_decide_eq_true hlow
    have hhigh : character.toNat ≤ 57 := of_decide_eq_true hhigh
    rw [← Char.ofNat_toNat character]
    exact hcodes _ (List.mem_range.mpr (Nat.lt_succ_of_le hhigh)) hlow
  · rw [beq_iff_eq.mp hdot]
    decide

/-- Whether the lexemes of a class start with characters that can open an item. -/
def Lexeme.opens : Lexeme → Bool
  | .stringRun | .escape | .rawRun => false
  | _ => true

theorem Lexeme.isOpener_of_isFirst {lexeme : Lexeme} (opens : lexeme.opens = true)
    {character : Char} (first : lexeme.isFirst character = true) :
    isOpener character = true := by
  cases lexeme with
  | word reserved => exact isOpener_of_isIdentifierStart first
  | exactly wanted => exact isOpener_of_isIdentifierStart first
  | integer => exact isOpener_of_isNumberStart first
  | float => exact isOpener_of_isNumberStart first
  | imaginary => exact isOpener_of_isNumberStart first
  | rune =>
      rw [beq_iff_eq.mp first]
      decide
  | _ => cases opens

theorem Lexeme.opens_of_length? {lexeme : Lexeme} (opens : lexeme.opens = true) {text : Text}
    {length : Nat} (found : lexeme.length? text = some length) : Opens text := by
  have takes : lexeme.takes = true := by
    cases lexeme <;> first | rfl | cases opens
  obtain ⟨-, first, rest, rfl, hfirst⟩ := lexeme.starts takes text length found
  exact opens_cons (Lexeme.isOpener_of_isFirst opens hfirst) rest

namespace Form

/-- Whether what a form reads starts with a character that can open an item;
`some false` if it may as well be nothing but blanks. -/
def opens? : Form → Option Bool
  | empty | skip | sameLine | literalsAllowed | outsideSwitch => some false
  | ahead _ | notAhead _ => some false
  | symbol wanted _ => if wanted.head?.any isOpener then some true else none
  | keyword _ => some true
  | leaf _ lexeme => if lexeme.opens then some true else none
  | seq first second => first.opens?.bind fun opens => if opens then some true else second.opens?
  | alt first second => first.opens?.bind fun opens => second.opens?.map (opens && ·)
  | frame inner => inner.opens?
  | within _ inner => inner.opens?
  | phrase name => if name = .simpleTail || name = .suffix then none else some true
  | _ => none

theorem opens_of_length? {context : Context} {shape : Form} {opens : Bool}
    (found : shape.opens? = some opens) {text : Text} {length : Nat}
    (measured : shape.length? context text = some length) :
    Opens text ∨ (opens = false ∧ afterBlanks (text.drop length) = afterBlanks text) := by
  -- A form that only looks takes no character.
  have hlooks (hzero : some 0 = some length) (hopens : some false = some opens) :
      Opens text ∨ (opens = false ∧ afterBlanks (text.drop length) = afterBlanks text) := by
    cases hopens
    cases hzero
    exact .inr ⟨rfl, rfl⟩
  cases shape with
  | empty => exact hlooks measured found
  | skip =>
      cases found
      cases measured
      exact .inr ⟨rfl, afterBlanks_afterBlanks text⟩
  | symbol wanted longer =>
      simp only [opens?] at found
      split at found <;> cases found
      rename_i hopener
      simp only [length?] at measured
      split at measured <;> cases measured
      rename_i hmatch
      obtain ⟨rest, rfl⟩ := List.isPrefixOf_iff_prefix.mp (Bool.and_eq_true_iff.mp hmatch).1
      cases wanted with
      | nil => cases hopener
      | cons first wanted => exact .inl (opens_cons hopener _)
  | keyword word =>
      have hopens : (Lexeme.exactly word).opens = true := rfl
      exact .inl (Lexeme.opens_of_length? hopens measured)
  | leaf kind lexeme =>
      simp only [opens?] at found
      split at found <;> cases found
      rename_i hopens
      exact .inl (Lexeme.opens_of_length? hopens measured)
  | sameLine =>
      simp only [length?] at measured
      split at measured
      · cases measured
      · exact hlooks measured found
  | literalsAllowed =>
      simp only [length?] at measured
      split at measured
      · exact hlooks measured found
      · cases measured
  | outsideSwitch =>
      simp only [length?] at measured
      split at measured
      · cases measured
      · exact hlooks measured found
  | operator choices => cases found
  | terminator => cases found
  | _ => cases measured

end Form

theorem form_opens {name : Phrase} (opens : (Form.phrase name).opens? = some true) :
    (form name).opens? = some true := by
  cases name <;> first | decide +kernel | cases opens

/-- Whatever is read by a form of the grammar starts in the way the form says. -/
theorem opens_of_read {fuel : Nat} {context : Context} {shape : Form} {reading next : Reading}
    {opens : Bool} (found : shape.opens? = some opens)
    (success : read form fuel context shape reading = some next) :
    Opens reading.rest ∨
      (opens = false ∧ afterBlanks next.rest = afterBlanks reading.rest) := by
  induction fuel generalizing context shape reading next opens with
  | zero => simp [read] at success
  | succ fuel ih =>
      cases shape using Form.casesAtom with
      | atom shape atom =>
          rw [read_atom atom] at success
          obtain ⟨length, hlength, rfl⟩ := Option.map_eq_some_iff.mp success
          rw [Reading.rest_take]
          exact Form.opens_of_length? found hlength
      | ahead inner =>
          rw [read_ahead] at success
          obtain ⟨-, -, rfl⟩ := Option.map_eq_some_iff.mp success
          cases found
          exact .inr ⟨rfl, rfl⟩
      | notAhead inner =>
          rw [read_notAhead] at success
          split at success <;> cases success
          cases found
          exact .inr ⟨rfl, rfl⟩
      | seq first second =>
          rw [read_seq] at success
          obtain ⟨middle, hfirst, hsecond⟩ := Option.bind_eq_some_iff.mp success
          obtain ⟨opensFirst, hopens, hrest⟩ := Option.bind_eq_some_iff.mp found
          rcases ih hopens hfirst with hopener | ⟨rfl, hsame⟩
          · exact .inl hopener
          · -- The first form has taken blanks only.
            rcases ih hrest hsecond with ⟨first, rest, hmiddle, hopener⟩ | ⟨rfl, hnext⟩
            · exact .inl ⟨first, rest, hsame ▸ hmiddle, hopener⟩
            · exact .inr ⟨rfl, hnext.trans hsame⟩
      | alt first second =>
          rw [read_alt] at success
          obtain ⟨opensFirst, hopens, hrest⟩ := Option.bind_eq_some_iff.mp found
          obtain ⟨opensSecond, hother, rfl⟩ := Option.map_eq_some_iff.mp hrest
          rcases Option.or_eq_some_iff.mp success with success | ⟨-, success⟩
          · rcases ih hopens success with hopener | ⟨rfl, hsame⟩
            · exact .inl hopener
            · exact .inr ⟨Bool.false_and _, hsame⟩
          · rcases ih hother success with hopener | ⟨rfl, hsame⟩
            · exact .inl hopener
            · exact .inr ⟨Bool.and_false _, hsame⟩
      | many inner => cases found
      | frame inner =>
          rw [read_frame] at success
          obtain ⟨middle, hinner, rfl⟩ := Option.map_eq_some_iff.mp success
          have hfound : inner.opens? = some opens := found
          exact (ih hfound hinner :)
      | wrap kind => cases found
      | within shift inner =>
          have hfound : inner.opens? = some opens := found
          exact ih hfound success
      | phrase name =>
          have htrue : opens = true := by
            simp only [Form.opens?] at found
            split at found <;> cases found
            rfl
          subst htrue
          exact ih (form_opens found) success

theorem opens_of_item {text rest : Text} (success : after .file itemForm text = some rest) :
    Opens text := by
  obtain ⟨next, hnext, -⟩ := Option.map_eq_some_iff.mp success
  have hopens : itemForm.opens? = some true := by decide +kernel
  rcases opens_of_read hopens hnext with hopener | ⟨hfalse, -⟩
  · exact hopener
  · cases hfalse

/-- A source starts with an item, or it is blank. -/
theorem SourceReads.exists_item {text : Text} (reads : SourceReads text) :
    (∃ rest, after .file itemForm text = some rest) ∨ afterBlanks text = [] := by
  obtain ⟨final, hfinal, hends⟩ := reads
  rw [after_many rfl, after_seq rfl] at hfinal
  cases hitem : after .file itemForm text with
  | none =>
      rw [hitem] at hfinal
      cases hfinal
      exact .inr hends
  | some rest => exact .inl ⟨rest, rfl⟩

theorem SourceReads.opens_or {text : Text} (reads : SourceReads text) :
    Opens text ∨ afterBlanks text = [] := by
  rcases reads.exists_item with ⟨rest, hitem⟩ | hblank
  · exact .inl (opens_of_item hitem)
  · exact .inr hblank

/-- In front of a closing parenthesis, blanks of any sort are passed over, or one
of them is a character of its own that opens nothing. -/
theorem not_opens_close {blanks : Text}
    (blank : ∀ character ∈ blanks, Text.isBlank character = true) (more : Text) :
    ∃ first rest, afterBlanks (blanks ++ ')' :: more) = first :: rest ∧
      isOpener first = false := by
  induction blanks with
  | nil => exact ⟨')', more, afterBlanks_solid rfl more, rfl⟩
  | cons character blanks ih =>
      obtain ⟨hblank, hlater⟩ := List.forall_mem_cons.mp blank
      cases hspace : isSpace character with
      | true =>
          have hpassed : Blanks true [character] := .space character hspace (.inl rfl) .nil
          have hskipped := hpassed.afterBlanks_append (blanks ++ ')' :: more)
          rw [List.singleton_append] at hskipped
          rw [List.cons_append, hskipped]
          exact ih hlater
      | false =>
          have hslash : character ≠ '/' := by
            rintro rfl
            cases hblank
          refine ⟨character, _, afterBlanks_solid ?_ _, ?_⟩
          · simp [isSolid, hspace, hslash]
          · simp [isOpener, isMark, hblank]

/-- Behind blanks of any sort, no source goes on with a closing parenthesis. -/
theorem SourceReads.not_closes {text : Text} (reads : SourceReads text) :
    Text.startsWith (Text.trimStart text) [')'] = false := by
  by_contra hcloses
  rw [Bool.not_eq_false] at hcloses
  obtain ⟨more, hmore⟩ := List.isPrefixOf_iff_prefix.mp hcloses
  have htext : text = text.takeWhile Text.isBlank ++ ')' :: more := by
    have hsplit : text.takeWhile Text.isBlank ++ Text.trimStart text = text :=
      List.takeWhile_append_dropWhile
    rw [← hmore] at hsplit
    exact hsplit.symm
  obtain ⟨first, rest, hafter, hopener⟩ :=
    not_opens_close (fun _ member => List.mem_takeWhile_imp member) more
  rw [← htext] at hafter
  rcases reads.opens_or with ⟨other, later, hopens, hother⟩ | hempty
  · rw [hafter] at hopens
    cases hopens
    cases hopener.symm.trans hother
  · rw [hafter] at hempty
    cases hempty

end Deinstrument.Go
