import Deinstrument.Toml.Quoted

/-!
# Reading quoted strings back

Whatever characters a string holds, the reader gets it back from the way in which
it is written. The reader holds marks back as long as they may close the string,
so what it does is described together with the number of marks that it holds.
-/

namespace Deinstrument.Toml

/-! ## Runs of the reader -/

/-- From one mode the reader passes through `written` into another mode, and
`read` is the text that it has found on the way. -/
def Reads (quote : Quote) (mode : Mode) (written read : Text) (next : Mode) : Prop :=
  ∀ rest, decode quote mode (written ++ rest) =
    (decode quote next rest).map fun (later, left) => (read ++ later, left)

section Runs

variable {quote : Quote} {mode next last : Mode} {written read later left : Text}

theorem Reads.nil : Reads quote mode [] [] mode := by
  intro rest
  simp

theorem Reads.cons {first : Char} (stepped : step quote mode first = .more read next)
    (reads : Reads quote next written later last) :
    Reads quote mode (first :: written) (read ++ later) last := by
  intro rest
  simp only [List.cons_append, decode, stepped]
  rw [reads rest, Option.map_map]
  simp [Function.comp_def]

theorem Reads.single {first : Char} (stepped : step quote mode first = .more read next) :
    Reads quote mode [first] read next := by
  simpa using Reads.cons stepped .nil

/-- A step that finds some text before it goes on as from another mode. -/
theorem decode_cons_after {first : Char}
    (stepped : step quote mode first = (step quote next first).after read) (rest : Text) :
    decode quote mode (first :: rest) =
      (decode quote next (first :: rest)).map fun (later, left) => (read ++ later, left) := by
  simp only [decode, stepped]
  cases step quote next first with
  | refuse => rfl
  | more found onward => simp [Step.after, Function.comp_def]
  | stop found taken => rfl

theorem Reads.decode_eq (reads : Reads quote mode written read next) {rest : Text}
    (found : decode quote next rest = some (later, left)) :
    decode quote mode (written ++ rest) = some (read ++ later, left) := by
  rw [reads rest, found]
  rfl

end Runs

/-! ## Marks that are held back -/

theorem Quote.room_le (quote : Quote) : quote.room ≤ 2 := by
  rw [Quote.room]
  split
  · exact Nat.le_refl 2
  · exact Nat.zero_le 2

theorem Quote.isLong_of_lt_room {quote : Quote} {run : Nat} (more : run < quote.room) :
    quote.isLong = true := by
  cases hlong : quote.isLong with
  | true => rfl
  | false => simp [Quote.room, hlong] at more

/-- The mode behind some marks in a row that may close the string. -/
def held : Nat → Mode
  | 0 => .plain
  | run + 1 => .closing (run + 1)

theorem Step.after_nil (step : Step) : step.after [] = step := by
  cases step <;> rfl

section Held

variable {quote : Quote} {run : Nat}

/-- A character that is no mark shows that the marks in front belong to the string. -/
theorem step_held {character : Char} (few : run ≤ 2) (other : character ≠ quote.mark) :
    step quote (held run) character =
      (step quote .plain character).after (List.replicate run quote.mark) := by
  cases run with
  | zero => exact (Step.after_nil _).symm
  | succ run =>
      have hopen : ¬ 3 ≤ run + 1 := by omega
      simp only [held, step, closingStep, if_neg other, if_neg hopen]

theorem step_held_mark (long : quote.isLong = true) (few : run ≤ 3) :
    step quote (held run) quote.mark = .more [] (held (run + 1)) := by
  cases run with
  | zero => simp [held, step, plainStep, long]
  | succ run =>
      have hopen : run + 1 ≠ 4 := by omega
      simp only [held, step, closingStep, if_neg hopen, if_true]

theorem Reads.held {first : Char} {written read : Text} {next : Mode}
    (reads : Reads quote .plain (first :: written) read next) (few : run ≤ 2)
    (other : first ≠ quote.mark) :
    Reads quote (held run) (first :: written) (List.replicate run quote.mark ++ read) next := by
  intro rest
  rw [List.cons_append, decode_cons_after (step_held few other), ← List.cons_append, reads rest,
    Option.map_map]
  simp [Function.comp_def]

/-- Behind three or four marks, the string ends with the first other character. -/
theorem decode_closing {count : Nat} {rest : Text} (closed : 3 ≤ count)
    (free : rest.head? ≠ some quote.mark) :
    decode quote (.closing count) rest =
      some (List.replicate (count - 3) quote.mark, rest) := by
  cases rest with
  | nil => simp [decode, closed]
  | cons first rest =>
      have hother : first ≠ quote.mark := fun same => free (congrArg some same)
      simp [decode, step, closingStep, hother, closed]

/-- The quotes at the end close a string; marks that are held back belong to it. -/
theorem decode_delimiter {rest : Text} (few : run ≤ quote.room)
    (free : rest.head? ≠ some quote.mark) :
    decode quote (held run) (quote.delimiter ++ rest) =
      some (List.replicate run quote.mark, rest) := by
  cases hlong : quote.isLong with
  | false =>
      have hrun : run = 0 := by
        simp only [Quote.room, hlong] at few
        exact Nat.le_zero.mp few
      subst hrun
      simp [Quote.delimiter, hlong, held, decode, step, plainStep]
  | true =>
      simp only [Quote.room, hlong, if_true] at few
      have hmarks : quote.delimiter = [quote.mark, quote.mark, quote.mark] := by
        simp [Quote.delimiter, hlong]
      have htwo : Reads quote (held run) [quote.mark, quote.mark] [] (held (run + 2)) :=
        .cons (step_held_mark hlong (by omega)) (.single (step_held_mark hlong (by omega)))
      have hsplit : quote.delimiter ++ rest = [quote.mark, quote.mark] ++ quote.mark :: rest := by
        rw [hmarks]
        rfl
      rw [hsplit]
      refine htwo.decode_eq ?_
      rcases Nat.eq_or_lt_of_le few with rfl | hfew
      · -- With two marks held back, the fifth mark is the last that the string can end with.
        simp [decode, held, step, closingStep]
      · have hthree : Reads quote (held (run + 2)) [quote.mark] [] (held (run + 3)) :=
          .single (step_held_mark hlong (by omega))
        exact hthree.decode_eq (decode_closing (Nat.le_add_left 3 run) free)

end Held

/-! ## Strings with escapes -/

section Escapes

variable {quote : Quote}

theorem mark_of_escapes (escapes : quote.escapes = true) : quote.mark = '"' := by
  cases quote with
  | basic | longBasic => rfl
  | literal | longLiteral => cases escapes

theorem step_backslash (escapes : quote.escapes = true) :
    step quote .plain '\\' = .more [] .escaped := by
  cases quote with
  | basic | longBasic => rfl
  | literal | longLiteral => cases escapes

/-- A backslash and a letter. -/
theorem reads_shortEscape (escapes : quote.escapes = true) {letter meant : Char}
    (short : shortEscape? letter = some meant) :
    Reads quote .plain ['\\', letter] [meant] .plain := by
  refine .cons (step_backslash escapes) (.single ?_)
  simp only [step, escapedStep, short]

theorem hexValue?_hexDigit : ∀ digit < 16, hexValue? (hexDigit digit) = some digit := by
  decide

theorem step_hexDigit {left value digit : Nat} (small : digit < 16) (more : left ≠ 1) :
    step quote (.code left value) (hexDigit digit) =
      .more [] (.code (left - 1) (16 * value + digit)) := by
  simp only [step, codeStep, hexValue?_hexDigit digit small, if_neg more]

/-- A backslash and a code of four digits. -/
theorem reads_codeEscape (escapes : quote.escapes = true) {character : Char}
    (short : character.toNat < 65536) :
    Reads quote .plain (codeEscape character) [character] .plain := by
  have hdigit (number : Nat) : number % 16 < 16 := Nat.mod_lt _ (by decide)
  have hcode : 16 * (16 * (16 * (16 * 0 + character.toNat / 4096 % 16) +
      character.toNat / 256 % 16) + character.toNat / 16 % 16) + character.toNat % 16 =
      character.toNat := by omega
  have hcoded : step quote .escaped 'u' = .more [] (.code 4 0) := rfl
  refine .cons (step_backslash escapes) (.cons hcoded ?_)
  refine .cons (step_hexDigit (hdigit _) (by decide)) ?_
  refine .cons (step_hexDigit (hdigit _) (by decide)) ?_
  refine .cons (step_hexDigit (hdigit _) (by decide)) (.single ?_)
  have hvalid : character.toNat.isValidChar := character.valid
  simp only [step, codeStep, hexValue?_hexDigit _ (hdigit _), hcode, hvalid, if_true,
    Char.ofNat_toNat]

/-- How a character other than a quote stands in a string with escapes. -/
inductive Encoded (quote : Quote) (character : Char) : Text → Prop
  | short {letter : Char} (means : shortEscape? letter = some character) :
      Encoded quote character ['\\', letter]
  | code (small : character.toNat < 65536) : Encoded quote character (codeEscape character)
  | plain (unescaped : character ≠ '\\')
      (allowed : isControl character = false ∨ character = '\n' ∧ quote.isLong = true) :
      Encoded quote character [character]

theorem encoded (quote : Quote) (character : Char) :
    Encoded quote character (encodeCharacter quote character) := by
  unfold encodeCharacter
  split
  · subst character
    exact .short rfl
  split
  · subst character
    exact .short rfl
  split
  · subst character
    split
    · exact .plain (by decide) (.inr ⟨rfl, ‹_›⟩)
    · exact .short rfl
  split
  · subst character
    exact .short rfl
  split
  · subst character
    exact .short rfl
  split
  · subst character
    exact .short rfl
  split
  · rename_i hcontrol
    refine .code ?_
    simp only [isControl, Bool.or_eq_true, decide_eq_true_eq, beq_iff_eq] at hcontrol
    omega
  · exact .plain ‹_› (.inl (Bool.eq_false_iff.mpr ‹_›))

section Encoded

variable {character : Char} {written : Text}

theorem Encoded.reads (encoded : Encoded quote character written)
    (escapes : quote.escapes = true) (other : character ≠ '"') :
    Reads quote .plain written [character] .plain := by
  cases encoded with
  | short means => exact reads_shortEscape escapes means
  | code small => exact reads_codeEscape escapes small
  | plain unescaped allowed =>
      refine .single ?_
      rcases allowed with hplain | ⟨rfl, hlong⟩
      · have hreturn : character ≠ '\r' := by
          rintro rfl
          cases hplain
        have hnewline : character ≠ '\n' := by
          rintro rfl
          cases hplain
        simp [step, plainStep, mark_of_escapes escapes, other, unescaped, hnewline, hreturn, hplain]
      · simp [step, plainStep, mark_of_escapes escapes, hlong]

/-- What stands for a character starts with a backslash or with the character. -/
theorem Encoded.exists_cons (encoded : Encoded quote character written) :
    ∃ first rest, written = first :: rest ∧ (first = '\\' ∨ first = character ∧ first ≠ '\r') := by
  cases encoded with
  | short means => exact ⟨_, _, rfl, .inl rfl⟩
  | code small => exact ⟨_, _, rfl, .inl rfl⟩
  | plain unescaped allowed =>
      refine ⟨_, _, rfl, .inr ⟨rfl, ?_⟩⟩
      rintro rfl
      rcases allowed with hplain | ⟨hnewline, -⟩
      · cases hplain
      · cases hnewline

end Encoded

/-- The inside of a string with escapes is read back, together with the marks in
front of it that are held back. -/
theorem decode_encode (escapes : quote.escapes = true) {rest : Text}
    (free : rest.head? ≠ some quote.mark) (text : Text) {run : Nat} (few : run ≤ quote.room) :
    decode quote (held run) (encode quote run text ++ (quote.delimiter ++ rest)) =
      some (List.replicate run quote.mark ++ text, rest) := by
  have hmark := mark_of_escapes escapes
  induction text generalizing run with
  | nil =>
      rw [List.append_nil]
      exact decode_delimiter few free
  | cons first text ih =>
      have hfew : run ≤ 2 := Nat.le_trans few quote.room_le
      rw [encode]
      split
      · subst first
        split
        · rename_i hmore
          have hlong := Quote.isLong_of_lt_room hmore
          have hstep : Reads quote (held run) ['"'] [] (held (run + 1)) :=
            .single (hmark ▸ step_held_mark hlong (Nat.le_succ_of_le hfew))
          have hread := hstep.decode_eq (ih hmore)
          rw [hmark] at hread ⊢
          rw [List.replicate_succ'] at hread
          simpa using hread
        · have hescape : Reads quote .plain ['\\', '"'] ['"'] .plain :=
            reads_shortEscape escapes rfl
          have hread := (hescape.held hfew (by rw [hmark]; decide)).decode_eq (ih (Nat.zero_le _))
          simpa using hread
      · rename_i hother
        have hcharacter := (encoded quote first).reads escapes hother
        obtain ⟨start, written, hwritten, hstart⟩ := (encoded quote first).exists_cons
        rw [hwritten] at hcharacter ⊢
        have hstart : start ≠ quote.mark := by
          rw [hmark]
          rcases hstart with rfl | ⟨rfl, -⟩
          · decide
          · exact hother
        have hread := (hcharacter.held hfew hstart).decode_eq (ih (Nat.zero_le _))
        simpa using hread

end Escapes

/-! ## Strings without escapes -/

section Raw

variable {quote : Quote}

theorem le_longestRun (mark : Char) (run : Nat) (text : Text) : run ≤ longestRun mark run text := by
  induction text generalizing run with
  | nil => exact Nat.le_refl run
  | cons first text ih =>
      rw [longestRun]
      split
      · exact Nat.le_of_succ_le (ih (run + 1))
      · exact Nat.le_max_left _ _

/-- A character that a string without escapes can hold. -/
theorem step_raw (raw : quote.escapes = false) {character : Char}
    (other : character ≠ quote.mark) (readable : needsCode character = false)
    (inline : character = '\n' → quote.isLong = true) :
    step quote .plain character = .more [character] .plain := by
  have hreturn : character ≠ '\r' := by
    rintro rfl
    cases readable
  by_cases hnewline : character = '\n'
  · subst hnewline
    simp [step, plainStep, other, raw, inline rfl]
  · have hcontrol : (isControl character && character != '\t') = false := by
      simpa [needsCode, hnewline] using readable
    simp [step, plainStep, other, raw, hnewline, hreturn, hcontrol]

/-- The inside of a string without escapes is read back if it never holds more marks
in a row than there is room for. -/
theorem decode_raw (raw : quote.escapes = false) {rest : Text}
    (free : rest.head? ≠ some quote.mark) {text : Text}
    (readable : ∀ character ∈ text, needsCode character = false)
    (inline : '\n' ∈ text → quote.isLong = true) {run : Nat}
    (few : longestRun quote.mark run text ≤ quote.room) :
    decode quote (held run) (text ++ (quote.delimiter ++ rest)) =
      some (List.replicate run quote.mark ++ text, rest) := by
  induction text generalizing run with
  | nil =>
      rw [List.append_nil]
      exact decode_delimiter few free
  | cons first text ih =>
      obtain ⟨hfirst, htext⟩ := List.forall_mem_cons.mp readable
      have hlater (member : '\n' ∈ text) := inline (List.mem_cons_of_mem _ member)
      have hfew : run ≤ 2 :=
        Nat.le_trans (le_longestRun quote.mark run _) (Nat.le_trans few quote.room_le)
      rw [longestRun] at few
      split at few
      · rename_i hmark
        have hlong := Quote.isLong_of_lt_room (Nat.lt_of_lt_of_le (le_longestRun _ _ text) few)
        have hstep : Reads quote (held run) [quote.mark] [] (held (run + 1)) :=
          .single (step_held_mark hlong (Nat.le_succ_of_le hfew))
        have hread := hstep.decode_eq (ih htext hlater few)
        rw [List.replicate_succ'] at hread
        rw [hmark]
        simpa using hread
      · rename_i hother
        have hcharacter : Reads quote .plain [first] [first] .plain :=
          .single (step_raw raw hother hfirst fun same => inline (same ▸ List.mem_cons_self))
        have hread := (hcharacter.held hfew hother).decode_eq
          (ih htext hlater (Nat.le_trans (Nat.le_max_right _ _) few))
        simpa using hread

end Raw

/-! ## The way that is chosen -/

/-- What is known of a string from the way in which it is written. -/
inductive Chosen (text : Text) : Quote → Prop
  | escapes {quote : Quote} (escapes : quote.escapes = true) : Chosen text quote
  | literal (readable : ∀ character ∈ text, needsCode character = false) (inline : '\n' ∉ text)
      (free : longestRun '\'' 0 text = 0) : Chosen text .literal
  | longLiteral (readable : ∀ character ∈ text, needsCode character = false)
      (few : longestRun '\'' 0 text ≤ 2) : Chosen text .longLiteral

theorem chosen (text : Text) : Chosen text (quoteFor text) := by
  have hreadable (coded : (!text.any needsCode) = true) :
      ∀ character ∈ text, needsCode character = false := by simpa using coded
  simp only [quoteFor]
  split
  · exact .escapes rfl
  split
  · rename_i hliteral
    simp only [Bool.and_eq_true, beq_iff_eq] at hliteral
    obtain ⟨⟨hcoded, hbroken⟩, hfree⟩ := hliteral
    exact .literal (hreadable hcoded) (by simpa using hbroken) hfree
  split
  · exact .escapes rfl
  split
  · rename_i hliteral
    simp only [Bool.and_eq_true, decide_eq_true_eq] at hliteral
    exact .longLiteral (hreadable hliteral.1) hliteral.2
  split
  · exact .escapes rfl
  · exact .escapes rfl

/-- A string as it stands between its quotes. -/
def inside (quote : Quote) (text : Text) : Text :=
  if quote.escapes then encode quote 0 text else text

section Chosen

variable {quote : Quote} {text : Text}

theorem Chosen.decode_inside (chosen : Chosen text quote) {rest : Text}
    (free : rest.head? ≠ some quote.mark) :
    decode quote .plain (inside quote text ++ (quote.delimiter ++ rest)) = some (text, rest) := by
  cases chosen with
  | escapes escapes =>
      rw [inside, if_pos escapes]
      exact decode_encode escapes free text (Nat.zero_le _)
  | literal readable inline none =>
      exact decode_raw rfl free readable (fun broken => absurd broken inline) (Nat.le_of_eq none)
  | longLiteral readable few => exact decode_raw rfl free readable (fun _ => rfl) few

/-- The first character between the quotes is a mark only where marks may follow each
other, and a line break only if the string holds one. -/
theorem Chosen.head?_inside (chosen : Chosen text quote) {first : Char}
    (found : (inside quote text).head? = some first) :
    (first = quote.mark → quote.isLong = true) ∧ (first = '\n' → '\n' ∈ text) ∧
      first ≠ '\r' := by
  cases text with
  | nil =>
      rw [inside] at found
      split at found <;> cases found
  | cons start text =>
      cases chosen with
      | escapes escapes =>
          rw [mark_of_escapes escapes]
          rw [inside, if_pos escapes, encode] at found
          split at found
          · split at found
            · rename_i hmore
              cases found
              exact ⟨fun _ => Quote.isLong_of_lt_room hmore, by simp, by decide⟩
            · cases found
              exact ⟨by simp, by simp, by decide⟩
          · rename_i hother
            obtain ⟨begin, rest, hwritten, hbegin⟩ := (encoded quote start).exists_cons
            rw [hwritten] at found
            cases found
            rcases hbegin with rfl | ⟨rfl, hreturn⟩
            · exact ⟨by simp, by simp, by decide⟩
            · exact ⟨fun same => absurd same hother, fun same => same ▸ List.mem_cons_self, hreturn⟩
      | literal readable inline none =>
          cases found
          refine ⟨fun same => ?_, fun same => same ▸ List.mem_cons_self, ?_⟩
          · have hmark : first = '\'' := same
            rw [longestRun, if_pos hmark] at none
            have hrun := le_longestRun '\'' (0 + 1) text
            rw [none] at hrun
            cases hrun
          · rintro rfl
            cases readable _ List.mem_cons_self
      | longLiteral readable few =>
          cases found
          refine ⟨fun _ => rfl, fun same => same ▸ List.mem_cons_self, ?_⟩
          rintro rfl
          cases readable _ List.mem_cons_self

end Chosen

/-! ## Quotes -/

section Quotes

variable {quote : Quote} {body : Text}

theorem readQuoted_short (short : quote.isLong = false)
    (apart : ∀ later, body ≠ quote.mark :: quote.mark :: later) :
    readQuoted (quote.delimiter ++ body) = decode quote .plain body := by
  cases quote with
  | longBasic | longLiteral => cases short
  | basic => exact readQuoted.eq_2 body apart
  | literal => exact readQuoted.eq_4 body apart

theorem readQuoted_long (long : quote.isLong = true) :
    readQuoted (quote.delimiter ++ body) = decode quote .plain (dropBreak body) := by
  cases quote with
  | longBasic | longLiteral => rfl
  | basic | literal => cases long

theorem dropBreak_eq_self
    (inline : ∀ first, body.head? = some first → first ≠ '\n' ∧ first ≠ '\r') :
    dropBreak body = body := by
  unfold dropBreak
  split
  · exact absurd rfl (inline '\n' rfl).1
  · exact absurd rfl (inline '\r' rfl).2
  · rfl

theorem head?_delimiter_append (quote : Quote) (rest : Text) :
    (quote.delimiter ++ rest).head? = some quote.mark := by
  cases quote <;> rfl

theorem mark_ne (quote : Quote) : quote.mark ≠ '\n' ∧ quote.mark ≠ '\r' := by
  cases quote <;> decide

/-- A string without a line break does not start with one between its quotes. -/
theorem Chosen.dropBreak_inside {text : Text} (chosen : Chosen text quote) (inline : '\n' ∉ text)
    (rest : Text) :
    dropBreak (inside quote text ++ (quote.delimiter ++ rest)) =
      inside quote text ++ (quote.delimiter ++ rest) := by
  refine dropBreak_eq_self fun first found => ?_
  cases hinside : inside quote text with
  | nil =>
      rw [hinside, List.nil_append, head?_delimiter_append] at found
      cases found
      exact mark_ne quote
  | cons start front =>
      rw [hinside] at found
      cases found
      obtain ⟨-, hbreak, hreturn⟩ := chosen.head?_inside (by rw [hinside]; rfl)
      exact ⟨fun same => inline (hbreak same), hreturn⟩

/-- Between short quotes no two marks stand at the front. -/
theorem Chosen.inside_ne {text rest : Text} (chosen : Chosen text quote)
    (short : quote.isLong = false) (free : rest.head? ≠ some quote.mark) (later : Text) :
    inside quote text ++ (quote.delimiter ++ rest) ≠ quote.mark :: quote.mark :: later := by
  intro hmarks
  have hdelimiter : quote.delimiter = [quote.mark] := by simp [Quote.delimiter, short]
  cases hinside : inside quote text with
  | nil =>
      rw [hinside, hdelimiter] at hmarks
      have hrest : rest = quote.mark :: later := (List.cons.inj hmarks).2
      exact free (congrArg List.head? hrest)
  | cons first front =>
      rw [hinside] at hmarks
      obtain ⟨hlong, -, -⟩ := chosen.head?_inside (by rw [hinside]; rfl)
      rw [short] at hlong
      cases hlong (List.cons.inj hmarks).1

theorem writeQuoted_eq (text : Text) :
    writeQuoted text = (quoteFor text).delimiter ++
      (if (quoteFor text).isLong && text.contains '\n' then ['\n'] else []) ++
      inside (quoteFor text) text ++ (quoteFor text).delimiter :=
  rfl

/-- Every string is read back from what is written for it, if no further quotes follow. -/
theorem readQuoted_writeQuoted (text : Text) {rest : Text}
    (free : ∀ quote : Quote, rest.head? ≠ some quote.mark) :
    readQuoted (writeQuoted text ++ rest) = some (text, rest) := by
  have hchosen := chosen text
  rw [writeQuoted_eq]
  generalize quoteFor text = quote at hchosen
  have hread := hchosen.decode_inside (free quote)
  simp only [List.append_assoc]
  cases hlong : quote.isLong with
  | false =>
      rw [Bool.false_and, if_neg Bool.false_ne_true, List.nil_append,
        readQuoted_short hlong (hchosen.inside_ne hlong (free quote))]
      exact hread
  | true =>
      rw [readQuoted_long hlong]
      by_cases hbroken : '\n' ∈ text
      · rw [if_pos (by simpa using hbroken)]
        exact hread
      · rw [if_neg (by simpa using hbroken), List.nil_append, hchosen.dropBreak_inside hbroken]
        exact hread

end Quotes

end Deinstrument.Toml
