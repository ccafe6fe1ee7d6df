import Deinstrument.Proofs.Blanks

/-!
# The text of import specifications

An import specification is read the same whatever stands behind it: its path
ends with a quote, and a name in front of the path with the blanks or the quote
behind it. This module describes the texts of words, strings and specifications
and reads them back.
-/

namespace Deinstrument.Go

open Form

/-- The surroundings in which declarations are read. -/
def Context.file : Context :=
  ⟨true, true, false, false⟩

/-! ## Tokens behind blanks -/

section Tokens

variable {context : Context} {text : Text}

theorem after_skip (context : Context) (text : Text) :
    after context .skip text = some (afterBlanks text) := by
  rw [after_atom rfl]
  rfl

theorem after_skip_seq {second : Form} (fits : (Form.seq .skip second).fits = true) :
    after context (.seq .skip second) text = after context second (afterBlanks text) := by
  rw [after_seq fits, after_skip]
  rfl

theorem node_eq (kind : Kind) (inner : Form) :
    node kind inner = .seq .skip (.frame (.seq inner (.wrap kind))) := rfl

theorem fits_of_node {kind : Kind} {inner : Form} (fits : (node kind inner).fits = true) :
    inner.fits = true := by
  simp only [node_eq, Form.fits, Bool.and_eq_true] at fits
  exact fits.1.2.1.1

/-- A node takes the blanks in front of it and then what its form takes. -/
theorem after_node {kind : Kind} {inner : Form} (fits : (node kind inner).fits = true) :
    after context (node kind inner) text = after context inner (afterBlanks text) := by
  have hinner := fits_of_node fits
  have hseq : (Form.seq inner (.wrap kind)).fits = true := by
    simp [Form.fits, hinner, Form.depth]
  rw [node_eq] at fits ⊢
  rw [after_skip_seq fits, after_frame hseq, after_seq hseq]
  cases after context inner (afterBlanks text) <;> rfl

theorem after_symbol (wanted : Text) (context : Context) (text : Text) :
    after context (.symbol wanted []) text =
      if wanted.isPrefixOf text then some (text.drop wanted.length) else none := by
  rw [after_atom rfl, Form.length?]
  simp only [List.any_nil, Bool.not_false, Bool.and_true]
  split <;> rfl

theorem after_sym (wanted : String) (context : Context) (text : Text) :
    after context (sym wanted) text =
      if wanted.toList.isPrefixOf (afterBlanks text) then
        some ((afterBlanks text).drop wanted.toList.length)
      else none := by
  refine (after_skip_seq ?_).trans (after_symbol ..)
  rfl

theorem after_key (word : String) (context : Context) (text : Text) :
    after context (key word) text =
      ((Lexeme.exactly word.toList).length? (afterBlanks text)).map (afterBlanks text).drop := by
  refine (after_skip_seq ?_).trans (after_atom rfl)
  rfl

end Tokens

/-! ## Words -/

/-- The text is one word if what stands behind it does not go on with it. -/
structure IsWord (word : Text) : Prop where
  exists_start : ∃ first rest, word = first :: rest ∧ Text.isIdentifierStart first = true
  part : ∀ character ∈ word.tail, Text.isIdentifierPart character = true

/-- A text does not go on with a word that stands in front of it. -/
def EndsWord (text : Text) : Prop :=
  ∀ first, text.head? = some first → Text.isIdentifierPart first = false

theorem IsWord.measure {word text : Text} (isWord : IsWord word) (ends : EndsWord text) :
    Measure.word (word ++ text) = some word.length := by
  obtain ⟨first, rest, rfl, hfirst⟩ := isWord.exists_start
  have hpart : ∀ character ∈ rest, Text.isIdentifierPart character = true := isWord.part
  have hrest : (rest ++ text).takeWhile Text.isIdentifierPart = rest := by
    rw [List.takeWhile_append_of_pos hpart]
    cases text with
    | nil => simp
    | cons next later => simp [ends next rfl]
  rw [List.cons_append, Measure.word, if_pos hfirst, hrest, List.length_cons, Nat.add_comm]

theorem isWord_of_measure {text : Text} {length : Nat}
    (measured : Measure.word text = some length) :
    ∃ word rest, text = word ++ rest ∧ word.length = length ∧ IsWord word ∧ EndsWord rest := by
  cases text with
  | nil => cases measured
  | cons first rest =>
      simp only [Measure.word] at measured
      split at measured <;> cases measured
      rename_i hfirst
      refine ⟨first :: rest.takeWhile Text.isIdentifierPart,
        rest.dropWhile Text.isIdentifierPart, ?_, ?_, ⟨⟨first, _, rfl, hfirst⟩, ?_⟩, ?_⟩
      · rw [List.cons_append, List.takeWhile_append_dropWhile]
      · rw [List.length_cons, Nat.add_comm]
      · exact fun character member => List.mem_takeWhile_imp member
      · intro next hnext
        have := List.head?_dropWhile_not Text.isIdentifierPart rest
        rw [hnext] at this
        simpa using this

/-! ## Strings -/

namespace Measure

/-- The measure does not look behind the first `stop` of a text. -/
def Stops (stop : Char) (measure : Measure) : Prop :=
  ∀ front back other, measure (front ++ stop :: back) = measure (front ++ stop :: other)

namespace Stops

variable {stop : Char}

theorem one (stop : Char) (accepts : Char → Bool) : Stops stop (Measure.one accepts) := by
  intro front back other
  cases front <;> rfl

theorem both {accepts : Char → Bool} (rejects : accepts stop = false) {second : Measure}
    (stops : Stops stop second) : Stops stop (Measure.both (Measure.one accepts) second) := by
  intro front back other
  cases front with
  | nil => simp [Measure.both, Measure.one, rejects]
  | cons first rest =>
      simp only [List.cons_append, Measure.both, Measure.one]
      split
      · rfl
      · rename_i length hlength
        split at hlength <;> cases hlength
        simp only [List.drop_one, List.tail_cons]
        rw [stops rest back other]

theorem exactly {radix : Radix} (rejects : radix.isDigit stop = false) (count : Nat) :
    Stops stop (Measure.exactly radix count) := by
  induction count with
  | zero => exact fun _ _ _ => rfl
  | succ count ih => exact both rejects ih

theorem longest {measures : List Measure} (stops : ∀ measure ∈ measures, Stops stop measure) :
    Stops stop (Measure.longest measures) := by
  intro front back other
  refine List.foldl_ext _ _ _ fun best measure member => ?_
  rw [stops measure member front back other]

theorem stringRun : Stops '"' Measure.stringRun := by
  intro front back other
  have hrun (text : Text) : (front ++ '"' :: text).takeWhile (fun character =>
      character != '"' && character != '\n' && character != '\\') =
      front.takeWhile (fun character =>
        character != '"' && character != '\n' && character != '\\') := by
    rw [List.takeWhile_append]
    split
    · rename_i hall
      rw [(List.takeWhile_prefix _).eq_of_length hall]
      simp
    · rfl
  simp only [Measure.stringRun, hrun]

theorem escape : Stops '"' Measure.escape := by
  refine both (by decide) (longest ?_)
  simp only [List.forall_mem_cons, List.not_mem_nil, false_implies, implies_true, and_true]
  exact ⟨.one _ _, .exactly (by decide) _, .exactly (by decide) _,
    .both (by decide) (.exactly (by decide) _), .both (by decide) (.exactly (by decide) _),
    .both (by decide) (.exactly (by decide) _)⟩

end Stops

end Measure

/-- What stands between the quotes of a string. -/
def stringContents : Form :=
  .many (.leaf .interpretedStringLiteralContent .stringRun <|> .leaf .escapeSequence .escape)

theorem string_eq : string =
    .alt (node .interpretedStringLiteral
        (.seq (.symbol ['"'] []) (.seq stringContents (.symbol ['"'] []))))
      (node .rawStringLiteral (.seq (.symbol ['\x60'] [])
        (.seq (.leaf .rawStringLiteralContent .rawRun) (.symbol ['\x60'] [])))) := rfl

theorem after_stringContents (context : Context) (text : Text) :
    after context stringContents text =
      ((Measure.stringRun text).or (Measure.escape text)).elim (some text)
        fun length => after context stringContents (text.drop length) := by
  have hitem : after context (.alt (.leaf .interpretedStringLiteralContent .stringRun)
      (.leaf .escapeSequence .escape)) text =
      ((Measure.stringRun text).or (Measure.escape text)).map text.drop := by
    rw [after_alt rfl, after_atom rfl, after_atom rfl, Form.length?, Form.length?]
    cases hrun : Measure.stringRun text <;> simp [Lexeme.length?, hrun]
  refine (after_many rfl).trans ?_
  refine (congrArg (Option.elim · (some text) (after context stringContents)) hitem).trans ?_
  cases (Measure.stringRun text).or (Measure.escape text) <;> rfl

/-- The contents of a string are read the same whatever stands behind its end. -/
theorem stringContents_stops {context : Context} {contents back : Text}
    (success : after context stringContents (contents ++ '"' :: back) = some ('"' :: back))
    (other : Text) :
    after context stringContents (contents ++ '"' :: other) = some ('"' :: other) := by
  induction hlength : contents.length using Nat.strongRecOn generalizing contents with
  | ind size ih =>
      subst hlength
      have hsame : (Measure.stringRun (contents ++ '"' :: other)).or
          (Measure.escape (contents ++ '"' :: other)) =
          (Measure.stringRun (contents ++ '"' :: back)).or
            (Measure.escape (contents ++ '"' :: back)) := by
        rw [Measure.Stops.stringRun contents other back, Measure.Stops.escape contents other back]
      rw [after_stringContents] at success ⊢
      rw [hsame]
      cases hitem : (Measure.stringRun (contents ++ '"' :: back)).or
          (Measure.escape (contents ++ '"' :: back)) with
      | none =>
          rw [hitem] at success
          have hnil : contents = [] := by
            simpa using success
          rw [hnil]
          rfl
      | some length =>
          rw [hitem, Option.elim_some] at success
          have hpos : 0 < length := by
            rcases Option.or_eq_some_iff.mp hitem with hrun | ⟨-, hescape⟩
            · exact (Lexeme.positive .stringRun rfl hrun).1
            · exact (Lexeme.positive .escape rfl hescape).1
          have hle : length ≤ contents.length := by
            have := (suffix_of_after success).length_le
            simp only [List.length_drop, List.length_append, List.length_cons] at this
            omega
          rw [List.drop_append_of_le_length hle] at success
          rw [Option.elim_some, List.drop_append_of_le_length hle]
          refine ih _ ?_ success rfl
          rw [List.length_drop]
          omega

/-- The text of a string literal. -/
structure IsString (text : Text) : Prop where
  reads : ∀ more, after .file string (text ++ more) = some more
  opens : text.head? = some '"' ∨ text.head? = some '\x60'
  closes : text.getLast? = some '"' ∨ text.getLast? = some '\x60'

theorem isPrefixOf_singleton {wanted : Char} {text : Text}
    (opens : [wanted].isPrefixOf text = true) : ∃ rest, text = wanted :: rest := by
  obtain ⟨rest, hrest⟩ := List.isPrefixOf_iff_prefix.mp opens
  exact ⟨rest, hrest.symm⟩

theorem eq_cons_of_after_symbol {context : Context} {wanted : Char} {text rest : Text}
    (success : after context (.symbol [wanted] []) text = some rest) : text = wanted :: rest := by
  rw [after_symbol] at success
  split at success
  · rename_i hopens
    obtain ⟨later, rfl⟩ := isPrefixOf_singleton hopens
    cases success
    rfl
  · cases success

theorem after_symbol_cons (context : Context) (wanted : Char) (text : Text) :
    after context (.symbol [wanted] []) (wanted :: text) = some text := by
  rw [after_symbol]
  simp

theorem after_rawRun (context : Context) (text : Text) :
    after context (.leaf .rawStringLiteralContent .rawRun) text =
      some (text.dropWhile (· != '\x60')) := by
  have hsplit : text.takeWhile (· != '\x60') ++ text.dropWhile (· != '\x60') = text :=
    List.takeWhile_append_dropWhile
  have hdrop : text.drop (text.takeWhile (· != '\x60')).length =
      text.dropWhile (· != '\x60') := by
    calc text.drop (text.takeWhile (· != '\x60')).length
      _ = (text.takeWhile (· != '\x60') ++ text.dropWhile (· != '\x60')).drop
          (text.takeWhile (· != '\x60')).length := by rw [hsplit]
      _ = text.dropWhile (· != '\x60') := List.drop_left
  rw [after_atom rfl]
  exact congrArg some hdrop

theorem after_string_plain {contents : Text}
    (closes : ∀ more,
      after .file stringContents (contents ++ '"' :: more) = some ('"' :: more)) (more : Text) :
    after .file string ('"' :: contents ++ ['"'] ++ more) = some more := by
  have hsolid : afterBlanks ('"' :: contents ++ ['"'] ++ more) =
      '"' :: (contents ++ '"' :: more) := by
    rw [List.cons_append, List.cons_append, afterBlanks_solid (by decide)]
    simp
  rw [string_eq, after_alt rfl, after_node rfl, hsolid, after_seq rfl,
    after_symbol_cons, Option.bind_some, after_seq rfl, closes, Option.bind_some,
    after_symbol_cons, Option.some_or]

theorem after_string_raw {contents : Text} (inside : '\x60' ∉ contents) (more : Text) :
    after .file string ('\x60' :: contents ++ ['\x60'] ++ more) = some more := by
  have hsolid : afterBlanks ('\x60' :: contents ++ ['\x60'] ++ more) =
      '\x60' :: (contents ++ '\x60' :: more) := by
    rw [List.cons_append, List.cons_append, afterBlanks_solid (by decide)]
    simp
  have hcontents : (contents ++ '\x60' :: more).dropWhile (· != '\x60') = '\x60' :: more := by
    rw [List.dropWhile_append_of_pos]
    · simp
    · intro character member
      rw [bne_iff_ne]
      exact ne_of_mem_of_not_mem member inside
  have hplain : after .file (.symbol ['"'] []) ('\x60' :: (contents ++ '\x60' :: more)) = none := by
    rw [after_symbol]
    rfl
  rw [string_eq, after_alt rfl, after_node rfl, after_node rfl, hsolid,
    after_seq rfl, hplain, Option.bind_none, Option.none_or, after_seq rfl,
    after_symbol_cons, Option.bind_some, after_seq rfl, after_rawRun, hcontents,
    Option.bind_some, after_symbol_cons]

/-- What is read as a string is the text of one. -/
theorem exists_string {text rest : Text} (success : after .file string text = some rest) :
    ∃ literal, afterBlanks text = literal ++ rest ∧ IsString literal := by
  rw [string_eq, after_alt rfl, after_node rfl, after_node rfl] at success
  rcases Option.or_eq_some_iff.mp success with hplain | ⟨-, hraw⟩
  · rw [after_seq rfl] at hplain
    obtain ⟨inner, hopen, hinner⟩ := Option.bind_eq_some_iff.mp hplain
    rw [after_seq rfl] at hinner
    obtain ⟨close, hcontents, hclose⟩ := Option.bind_eq_some_iff.mp hinner
    cases eq_cons_of_after_symbol hclose
    obtain ⟨contents, rfl⟩ := suffix_of_after hcontents
    refine ⟨'"' :: contents ++ ['"'], ?_, ?_, .inl rfl, .inl (List.getLast?_concat)⟩
    · rw [eq_cons_of_after_symbol hopen]
      simp
    · exact after_string_plain (stringContents_stops hcontents)
  · rw [after_seq rfl] at hraw
    obtain ⟨inner, hopen, hinner⟩ := Option.bind_eq_some_iff.mp hraw
    rw [after_seq rfl] at hinner
    obtain ⟨close, hcontents, hclose⟩ := Option.bind_eq_some_iff.mp hinner
    cases eq_cons_of_after_symbol hclose
    rw [after_rawRun, Option.some.injEq] at hcontents
    have hsplit : inner.takeWhile (· != '\x60') ++ inner.dropWhile (· != '\x60') = inner :=
      List.takeWhile_append_dropWhile
    rw [hcontents] at hsplit
    refine ⟨'\x60' :: inner.takeWhile (· != '\x60') ++ ['\x60'], ?_, ?_, .inr rfl,
      .inr (List.getLast?_concat)⟩
    · rw [eq_cons_of_after_symbol hopen]
      simp [hsplit]
    · refine after_string_raw fun member => ?_
      have := List.mem_takeWhile_imp member
      simp at this

/-! ## Specifications -/

/-- A character that starts a token and is no blank of any sort. -/
def isMark (character : Char) : Bool :=
  isSolid character && !Text.isBlank character

theorem afterBlanks_mark {first : Char} (mark : isMark first = true) (rest : Text) :
    afterBlanks (first :: rest) = first :: rest :=
  afterBlanks_solid (Bool.and_eq_true_iff.mp mark).1 rest

/-- No blank starts an identifier. -/
theorem isIdentifierStart_of_isBlank {character : Char}
    (blank : Text.isBlank character = true) : Text.isIdentifierStart character = false := by
  have hcodes : ∀ code ∈ [9, 10, 11, 12, 13, 0x20, 0x85, 0xA0, 0x1680, 0x2000, 0x2001, 0x2002,
      0x2003, 0x2004, 0x2005, 0x2006, 0x2007, 0x2008, 0x2009, 0x200A, 0x2028, 0x2029, 0x202F,
      0x205F, 0x3000], Text.isIdentifierStart (Char.ofNat code) = false := by
    decide +kernel
  rw [← Char.ofNat_toNat character]
  refine hcodes _ ?_
  simp only [Text.isBlank, Bool.or_eq_true, Bool.and_eq_true, decide_eq_true_eq,
    beq_iff_eq] at blank
  simp only [List.mem_cons, List.not_mem_nil, or_false]
  omega

theorem isMark_of_isIdentifierStart {character : Char}
    (starts : Text.isIdentifierStart character = true) : isMark character = true := by
  have hblank : Text.isBlank character = false := by
    cases hblank : Text.isBlank character with
    | false => rfl
    | true => cases starts.symm.trans (isIdentifierStart_of_isBlank hblank)
  have hspace : isSpace character = false := by
    cases hspace : isSpace character with
    | false => rfl
    | true => cases hblank.symm.trans (isBlank_of_isSpace hspace)
  have hslash : character ≠ '/' := by
    rintro rfl
    cases starts
  simp [isMark, isSolid, hblank, hspace, hslash]

/-- What may stand in front of the path of an import. -/
def importName : Form :=
  .alt (node .dot (sym ".")) (.alt (exactly .blankIdentifier "_") (name .packageIdentifier []))

theorem importSpec_eq : importSpec =
    node .importSpec (.seq (.alt importName .empty) (.phrase .string)) := rfl

theorem after_exactly (kind : Kind) (word : String) (context : Context) (text : Text) :
    after context (exactly kind word) text =
      ((Lexeme.exactly word.toList).length? (afterBlanks text)).map (afterBlanks text).drop := by
  refine (after_skip_seq ?_).trans (after_atom rfl)
  rfl

theorem after_name (kind : Kind) (context : Context) (text : Text) :
    after context (name kind []) text =
      (Measure.word (afterBlanks text)).map (afterBlanks text).drop := by
  refine ((after_skip_seq ?_).trans (after_atom rfl)).trans ?_
  · rfl
  · simp only [Form.length?, Lexeme.length?]
    cases Measure.word (afterBlanks text) <;> rfl

/-- A name in front of a path is a dot or a word. -/
theorem after_importName {text : Text} (solid : afterBlanks text = text) :
    after .file importName text =
      (if ['.'].isPrefixOf text then some (text.drop 1) else none).or
        ((Measure.word text).map text.drop) := by
  rw [importName, after_alt rfl, after_node rfl, after_sym, after_alt rfl,
    after_exactly, after_name, solid, solid]
  refine congrArg (Option.or _) ?_
  simp only [Lexeme.length?]
  cases Measure.word text with
  | none => rfl
  | some length =>
      simp only
      split <;> rfl

theorem after_importName_word {word text : Text} (isWord : IsWord word) (ends : EndsWord text) :
    after .file importName (word ++ text) = some text := by
  have hword := isWord.measure ends
  obtain ⟨first, rest, rfl, hfirst⟩ := isWord.exists_start
  have hdot : ['.'].isPrefixOf (first :: rest ++ text) = false := by
    have : '.' ≠ first := by
      rintro rfl
      cases hfirst
    simpa [List.isPrefixOf] using this
  have hsolid : afterBlanks (first :: rest ++ text) = first :: rest ++ text :=
    afterBlanks_mark (isMark_of_isIdentifierStart hfirst) _
  rw [after_importName hsolid, hdot, hword]
  simp

theorem after_importName_none {first : Char} (mark : isMark first = true)
    (starts : Text.isIdentifierStart first = false) (dot : first ≠ '.') (rest : Text) :
    after .file importName (first :: rest) = none := by
  have hdot : ['.'].isPrefixOf (first :: rest) = false := by
    simpa [List.isPrefixOf] using dot.symm
  rw [after_importName (afterBlanks_mark mark rest), hdot]
  simp [Measure.word, starts]

/-- The text of an import specification. -/
inductive SpecText : Text → Prop
  | plain {path : Text} (isString : IsString path) : SpecText path
  | dot {blanks path : Text} (passed : Blanks true blanks) (isString : IsString path) :
      SpecText ('.' :: blanks ++ path)
  | named {word blanks path : Text} (isWord : IsWord word) (ends : EndsWord (blanks ++ path))
      (passed : Blanks true blanks) (isString : IsString path) : SpecText (word ++ blanks ++ path)

namespace IsString

variable {text : Text}

theorem exists_cons (isString : IsString text) :
    ∃ quote rest, text = quote :: rest ∧ isMark quote = true ∧
      Text.isIdentifierStart quote = false ∧ quote ≠ '.' ∧ quote ≠ '(' := by
  rcases isString.opens with hopens | hopens
  · obtain ⟨rest, rfl⟩ := List.head?_eq_some_iff.mp hopens
    exact ⟨_, rest, rfl, by decide, by decide, by decide, by decide⟩
  · obtain ⟨rest, rfl⟩ := List.head?_eq_some_iff.mp hopens
    exact ⟨_, rest, rfl, by decide, by decide, by decide, by decide⟩

theorem afterBlanks_append (isString : IsString text) {blanks : Text}
    (passed : Blanks true blanks) (more : Text) :
    afterBlanks (blanks ++ text ++ more) = text ++ more := by
  obtain ⟨quote, rest, rfl, hmark, -⟩ := isString.exists_cons
  rw [List.append_assoc, passed.afterBlanks_append]
  exact afterBlanks_mark hmark _

/-- Blanks in front of a string make no difference. -/
theorem after_blanks (isString : IsString text) {blanks : Text} (passed : Blanks true blanks)
    (more : Text) : after .file string (blanks ++ text ++ more) = some more := by
  have hsolid := isString.afterBlanks_append .nil more
  have hreads := isString.reads more
  rw [string_eq, after_alt rfl, after_node rfl, after_node rfl] at hreads ⊢
  rw [List.nil_append] at hsolid
  rwa [isString.afterBlanks_append passed, ← hsolid]

end IsString

namespace SpecText

variable {text : Text}

theorem exists_cons (spec : SpecText text) :
    ∃ first rest, text = first :: rest ∧ isMark first = true ∧ first ≠ '(' := by
  cases spec with
  | plain isString =>
      obtain ⟨quote, rest, rfl, hmark, -, -, hopen⟩ := isString.exists_cons
      exact ⟨quote, rest, rfl, hmark, hopen⟩
  | dot passed isString => exact ⟨'.', _, rfl, by decide, by decide⟩
  | named isWord ends passed isString =>
      obtain ⟨first, rest, rfl, hfirst⟩ := isWord.exists_start
      refine ⟨first, _, rfl, isMark_of_isIdentifierStart hfirst, ?_⟩
      rintro rfl
      cases hfirst

theorem getLast? (spec : SpecText text) :
    text.getLast? = some '"' ∨ text.getLast? = some '\x60' := by
  cases spec with
  | plain isString => exact isString.closes
  | dot passed isString =>
      exact isString.closes.imp getLast?_append_of_some getLast?_append_of_some
  | named isWord ends passed isString =>
      exact isString.closes.imp getLast?_append_of_some getLast?_append_of_some

/-- Blanks in front of a specification are passed over. -/
theorem afterBlanks_append (spec : SpecText text) {blanks : Text} (passed : Blanks true blanks)
    (more : Text) : afterBlanks (blanks ++ text ++ more) = text ++ more := by
  obtain ⟨first, rest, rfl, hmark, -⟩ := spec.exists_cons
  rw [List.append_assoc, passed.afterBlanks_append]
  exact afterBlanks_mark hmark _

/-- A specification is read as such whatever stands behind it. -/
theorem after_append (spec : SpecText text) {blanks : Text} (passed : Blanks true blanks)
    (more : Text) : after .file importSpec (blanks ++ text ++ more) = some more := by
  rw [importSpec_eq, after_node rfl, spec.afterBlanks_append passed, after_seq rfl,
    after_alt rfl]
  have hpath {name blanks path : Text} (hname : after .file importName (name ++ (blanks ++ path ++
      more)) = some (blanks ++ path ++ more)) (hblanks : Blanks true blanks)
      (hstring : IsString path) :
      ((after .file importName (name ++ (blanks ++ path ++ more))).or
        (after .file .empty (name ++ (blanks ++ path ++ more)))).bind
          (after .file (.phrase .string)) = some more := by
    rw [hname, Option.some_or, Option.bind_some, after_phrase]
    exact hstring.after_blanks hblanks more
  cases spec with
  | plain isString =>
      obtain ⟨quote, rest, htext, hmark, hstart, hdot, -⟩ := isString.exists_cons
      have hname : after .file importName (text ++ more) = none := by
        rw [htext]
        exact after_importName_none hmark hstart hdot _
      rw [hname, Option.none_or, after_atom rfl]
      simp only [Form.length?, Option.map_some, List.drop_zero, Option.bind_some]
      rw [after_phrase]
      exact isString.after_blanks .nil more
  | @dot blanks path passed isString =>
      have hassoc : '.' :: blanks ++ path ++ more = ['.'] ++ (blanks ++ path ++ more) := rfl
      rw [hassoc]
      refine hpath ?_ passed isString
      have hsolid : afterBlanks ('.' :: (blanks ++ path ++ more)) =
          '.' :: (blanks ++ path ++ more) :=
        afterBlanks_solid (by decide) _
      rw [List.singleton_append, after_importName hsolid]
      simp
  | @named word blanks path isWord ends passed isString =>
      have hassoc : word ++ blanks ++ path ++ more = word ++ (blanks ++ path ++ more) := by simp
      rw [hassoc]
      refine hpath (after_importName_word isWord ?_) passed isString
      intro first hfirst
      refine ends first ?_
      obtain ⟨quote, rest, rfl, -⟩ := isString.exists_cons
      cases blanks <;> simpa using hfirst

end SpecText

/-- What is read as a specification is the text of one. -/
theorem exists_spec {text rest : Text} (success : after .file importSpec text = some rest) :
    ∃ spec, afterBlanks text = spec ++ rest ∧ SpecText spec := by
  rw [importSpec_eq, after_node rfl, after_seq rfl, after_alt rfl] at success
  obtain ⟨behind, hname, hstring⟩ := Option.bind_eq_some_iff.mp success
  rw [after_phrase] at hstring
  obtain ⟨path, hpath, isString⟩ := exists_string hstring
  have hgoes : afterBlanks behind ≠ [] := by
    obtain ⟨quote, later, rfl, -⟩ := isString.exists_cons
    rw [hpath]
    exact List.cons_ne_nil _ _
  obtain ⟨blanks, hblanks, hbehind⟩ := exists_afterBlanks hgoes
  rw [hpath] at hbehind
  rw [after_importName (afterBlanks_afterBlanks text)] at hname
  rcases Option.or_eq_some_iff.mp hname with hname | ⟨-, hempty⟩
  · rcases Option.or_eq_some_iff.mp hname with hdot | ⟨-, hword⟩
    · split at hdot
      · rename_i hopens
        obtain ⟨later, hlater⟩ := isPrefixOf_singleton hopens
        rw [hlater, List.drop_one, List.tail_cons, Option.some.injEq] at hdot
        subst hdot
        refine ⟨'.' :: blanks ++ path, ?_, .dot hblanks isString⟩
        rw [hlater, hbehind]
        simp
      · cases hdot
    · obtain ⟨length, hlength, hdrop⟩ := Option.map_eq_some_iff.mp hword
      obtain ⟨word, later, htext, rfl, isWord, ends⟩ := isWord_of_measure hlength
      rw [htext, List.drop_left] at hdrop
      subst hdrop
      refine ⟨word ++ blanks ++ path, ?_, .named isWord ?_ hblanks isString⟩
      · rw [htext, hbehind]
        simp
      · intro first hfirst
        refine ends first ?_
        rw [hbehind]
        obtain ⟨quote, rest, rfl, -⟩ := isString.exists_cons
        cases blanks <;> simpa using hfirst
  · rw [after_atom rfl] at hempty
    simp only [Form.length?, Option.map_some, List.drop_zero, Option.some.injEq] at hempty
    subst hempty
    rw [afterBlanks_afterBlanks] at hpath
    exact ⟨path, hpath, .plain isString⟩

end Deinstrument.Go
