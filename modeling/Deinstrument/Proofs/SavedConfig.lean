import Deinstrument.Config.File
import Deinstrument.Proofs.QuotedStrings

/-!
# Loading a saved configuration

A configuration is saved as three entries and read back line by line. Each kind
of value is read back from what is written for it, and each entry adds its key
to the document. So whatever the packages of a configuration are, loading what
was saved gives the same configuration.
-/

namespace Deinstrument.Toml

/-! ## Gaps -/

/-- A character that is no part of a gap. -/
def isSolid (character : Char) : Bool :=
  !isSpace character && character != '\n' && character != '\r' && character != '#'

theorem skipGap_solid {first : Char} (solid : isSolid first = true) (rest : Text) :
    skipGap false (first :: rest) = some (first :: rest) := by
  simp only [isSolid, Bool.and_eq_true, Bool.not_eq_true', bne_iff_ne] at solid
  obtain ⟨⟨⟨hspace, hnewline⟩, hreturn⟩, hcomment⟩ := solid
  rw [skipGap.eq_4 _ _ _ (fun same => hnewline same) (fun _ same => absurd same hreturn)]
  simp [hspace, hcomment]

theorem skipSpaces_solid {first : Char} (solid : isSolid first = true) (rest : Text) :
    skipSpaces (first :: rest) = first :: rest := by
  refine List.dropWhile_cons_of_neg ?_
  simp only [isSolid, Bool.and_eq_true, Bool.not_eq_true'] at solid
  simp [solid.1.1.1]

/-! ## Values -/

theorem isSolid_mark (quote : Quote) : isSolid quote.mark = true := by
  cases quote <;> rfl

theorem exists_writeQuoted (text : Text) :
    ∃ (quote : Quote) (more : Text), writeQuoted text = quote.mark :: more := by
  have hhead : (writeQuoted text).head? = some (quoteFor text).mark := by
    rw [writeQuoted_eq, List.append_assoc, List.append_assoc]
    exact head?_delimiter_append (quoteFor text) _
  obtain ⟨more, hmore⟩ := List.head?_eq_some_iff.mp hhead
  exact ⟨quoteFor text, more, hmore⟩

section Values

variable {depth : Nat} {rest : Text}

theorem readValue_writeQuoted (text : Text)
    (free : ∀ quote : Quote, rest.head? ≠ some quote.mark) :
    readValue (depth + 1) (writeQuoted text ++ rest) = some (.string text, rest) := by
  have hread := readQuoted_writeQuoted text free
  obtain ⟨quote, more, hmore⟩ := exists_writeQuoted text
  rw [hmore] at hread ⊢
  cases quote <;> exact congrArg (Option.map _) hread

theorem readValue_writeBoolean (value : Bool) :
    readValue (depth + 1) (writeBoolean value ++ '\n' :: rest) =
      some (.boolean value, '\n' :: rest) := by
  cases value <;> rfl

/-! ### Lists -/

variable {value : Text → Option (Value × Text)} {fuel : Nat} {text start more left : Text}
  {item : Value} {items : List Value}

theorem readItems_nil (gap : skipGap false text = some (']' :: left)) :
    readItems value (fuel + 1) text = some ([], left) := by
  simp [readItems, gap]

/-- An item with a comma behind it. -/
theorem readItems_cons (gap : skipGap false text = some start) (opens : start.head? ≠ some ']')
    (read : value start = some (item, rest)) (next : skipGap false rest = some (',' :: more))
    (later : readItems value fuel more = some (items, left)) :
    readItems value (fuel + 1) text = some (item :: items, left) := by
  simp only [readItems, gap, Option.bind_eq_bind, Option.bind_some]
  split
  · exact absurd rfl opens
  · simp [read, next, later]

/-- The last item, without a comma. -/
theorem readItems_last (gap : skipGap false text = some start) (opens : start.head? ≠ some ']')
    (read : value start = some (item, rest)) (next : skipGap false rest = some (']' :: left)) :
    readItems value (fuel + 1) text = some ([item], left) := by
  simp only [readItems, gap, Option.bind_eq_bind, Option.bind_some]
  split
  · exact absurd rfl opens
  · simp [read, next]

end Values

theorem mark_ne_bracket (quote : Quote) : quote.mark ≠ ']' := by
  cases quote <;> decide

/-- A written string is no gap and no end of a list. -/
theorem skipGap_writeQuoted (text rest : Text) :
    skipGap false (writeQuoted text ++ rest) = some (writeQuoted text ++ rest) ∧
      (writeQuoted text ++ rest).head? ≠ some ']' := by
  obtain ⟨quote, more, hmore⟩ := exists_writeQuoted text
  rw [hmore]
  exact ⟨skipGap_solid (isSolid_mark quote) _,
    fun same => mark_ne_bracket quote (Option.some.inj same)⟩

theorem head?_cons_ne_mark {first : Char} (double : first ≠ '"') (single : first ≠ '\'')
    (rest : Text) (quote : Quote) : (first :: rest).head? ≠ some quote.mark := by
  intro same
  cases quote with
  | basic | longBasic => exact double (Option.some.inj same)
  | literal | longLiteral => exact single (Option.some.inj same)

/-- An item of a list on a line of its own. -/
def itemLine (string : Text) : Text :=
  "    ".toList ++ writeQuoted string ++ ",\n".toList

theorem length_le_itemLines (strings : List Text) :
    strings.length ≤ (strings.flatMap itemLine).length := by
  induction strings with
  | nil => exact Nat.le_refl 0
  | cons string strings ih =>
      simp only [List.flatMap_cons, List.length_append, List.length_cons, itemLine]
      have hcomma : ",\n".toList.length = 2 := rfl
      omega

theorem readItems_itemLines {depth fuel : Nat} (strings : List Text)
    (enough : strings.length < fuel) (rest : Text) :
    readItems (readValue (depth + 1)) fuel ('\n' :: (strings.flatMap itemLine ++ ']' :: rest)) =
      some (strings.map .string, rest) := by
  induction strings generalizing fuel with
  | nil =>
      obtain ⟨fuel, rfl⟩ := Nat.exists_eq_add_of_lt enough
      exact readItems_nil (skipGap_solid rfl rest)
  | cons string strings ih =>
      obtain ⟨fuel, rfl⟩ := Nat.exists_eq_add_of_lt enough
      have hline : '\n' :: ((string :: strings).flatMap itemLine ++ ']' :: rest) =
          "\n    ".toList ++ (writeQuoted string ++
            ',' :: '\n' :: (strings.flatMap itemLine ++ ']' :: rest)) := by
        simp [itemLine]
      obtain ⟨hgap, hopens⟩ := skipGap_writeQuoted string
        (',' :: '\n' :: (strings.flatMap itemLine ++ ']' :: rest))
      rw [hline]
      refine readItems_cons hgap hopens
        (readValue_writeQuoted string (head?_cons_ne_mark (by decide) (by decide) _))
        (skipGap_solid rfl _) (ih ?_)
      simp only [List.length_cons]
      omega

/-- A list of strings is read back. -/
theorem readValue_writeStrings {depth : Nat} (strings : List Text) (rest : Text) :
    readValue (depth + 2) (writeStrings strings ++ rest) =
      some (.array (strings.map .string), rest) := by
  have hitems {inner : Text} {items : List Value}
      (read : readItems (readValue (depth + 1)) (inner.length + 1) inner = some (items, rest)) :
      readValue (depth + 2) ('[' :: inner) = some (.array items, rest) :=
    congrArg (Option.map _) read
  match strings with
  | [] => exact hitems (readItems_nil (skipGap_solid rfl rest))
  | [string] =>
      have hline : writeStrings [string] ++ rest = '[' :: (writeQuoted string ++ ']' :: rest) := by
        simp [writeStrings]
      obtain ⟨hgap, hopens⟩ := skipGap_writeQuoted string (']' :: rest)
      rw [hline]
      exact hitems (readItems_last hgap hopens
        (readValue_writeQuoted string (head?_cons_ne_mark (by decide) (by decide) _))
        (skipGap_solid rfl rest))
  | first :: second :: strings =>
      have hwritten : writeStrings (first :: second :: strings) =
          "[\n".toList ++ (first :: second :: strings).flatMap itemLine ++ [']'] := rfl
      have hlines : writeStrings (first :: second :: strings) ++ rest =
          '[' :: '\n' :: ((first :: second :: strings).flatMap itemLine ++ ']' :: rest) := by
        simp [hwritten]
      rw [hlines]
      refine hitems (readItems_itemLines _ ?_ rest)
      refine Nat.lt_succ_of_le (Nat.le_trans (length_le_itemLines _) ?_)
      rw [List.length_cons, List.length_append]
      omega

/-! ## Entries -/

/-- A key that is written without quotes. -/
structure IsBareKey (key : Text) : Prop where
  nonempty : key ≠ []
  bare : ∀ character ∈ key, isBare character = true

theorem ne_of_isBare {character other : Char} (bare : isBare character = true)
    (unbare : isBare other = false) : character ≠ other := by
  rintro rfl
  rw [bare] at unbare
  cases unbare

theorem isSolid_of_isBare {character : Char} (bare : isBare character = true) :
    isSolid character = true := by
  have hother (other : Char) (unbare : isBare other = false) : (character == other) = false :=
    beq_eq_false_iff_ne.mpr (ne_of_isBare bare unbare)
  simp [isSolid, isSpace, bne, hother ' ' rfl, hother '\t' rfl, hother '\n' rfl, hother '\r' rfl,
    hother '#' rfl]

section Entries

variable {key : Text} (bareKey : IsBareKey key)

include bareKey

theorem IsBareKey.exists_cons :
    ∃ first more, key = first :: more ∧ isBare first = true := by
  obtain ⟨first, more, rfl⟩ := List.exists_cons_of_ne_nil bareKey.nonempty
  exact ⟨first, more, rfl, bareKey.bare first List.mem_cons_self⟩

theorem IsBareKey.append_ne {other : Char} (unbare : isBare other = false) (rest later : Text) :
    key ++ rest ≠ other :: later := by
  obtain ⟨first, more, hkey, hfirst⟩ := bareKey.exists_cons
  intro same
  rw [hkey] at same
  exact ne_of_isBare hfirst unbare (List.cons.inj same).1

theorem readKey_bare (rest : Text) : readKey (key ++ ' ' :: rest) = some (key, ' ' :: rest) := by
  have htake : (key ++ ' ' :: rest).takeWhile isBare = key := by
    rw [List.takeWhile_append_of_pos bareKey.bare]
    exact List.append_nil key
  have hdrop : (key ++ ' ' :: rest).dropWhile isBare = ' ' :: rest := by
    rw [List.dropWhile_append_of_pos bareKey.bare]
    rfl
  rw [readKey.eq_3 _ (bareKey.append_ne rfl _) (bareKey.append_ne rfl _), htake, hdrop]
  simp [bareKey.nonempty]

theorem readKeys_bare {fuel : Nat} (rest : Text) :
    readKeys (fuel + 1) (key ++ ' ' :: '=' :: rest) = some ([key], '=' :: rest) := by
  have hspaces : skipSpaces (' ' :: '=' :: rest) = '=' :: rest := rfl
  simp [readKeys, readKey_bare bareKey, hspaces]

/-- A key and a value with an equals sign in between. -/
theorem readEntry_bare {value : Text → Option (Value × Text)} {written left : Text}
    {found : Value} (tight : skipSpaces written = written)
    (read : value written = some (found, left)) :
    readEntry value (key ++ " = ".toList ++ written) = some (([key], found), left) := by
  have hsplit : key ++ " = ".toList ++ written = key ++ ' ' :: '=' :: ' ' :: written := by simp
  have hspaces : skipSpaces (' ' :: written) = written := tight
  rw [hsplit]
  simp [readEntry, readKeys_bare bareKey, hspaces, read]

/-- The length of the line bounds how deep its value can be, so there is room for
a list. -/
theorem readLine_bare {written left : Text} {found : Value}
    (tight : skipSpaces written = written)
    (read : ∀ depth, readValue (depth + 2) written = some (found, left)) :
    readLine (key ++ " = ".toList ++ written) = some (.entry [key] found, left) := by
  have hroom : (key ++ " = ".toList ++ written).length + 1 =
      (key.length + written.length + 2) + 2 := by
    have hequals : " = ".toList.length = 3 := rfl
    rw [List.length_append, List.length_append, hequals]
    omega
  have hopens (later : Text) : key ++ " = ".toList ++ written ≠ '[' :: later := by
    rw [List.append_assoc]
    exact bareKey.append_ne rfl _ later
  rw [readLine.eq_3 _ (fun _ => hopens _) hopens, hroom, readEntry_bare bareKey tight (read _)]
  rfl

end Entries

/-! ## Documents -/

theorem addEntry_bare {document : Document} {key : Text} {value : Value}
    (fresh : document.at? [.key key] = none) :
    Draft.addEntry ⟨document, []⟩ [key] value =
      some ⟨document ++ [([.key key], .value value)], []⟩ := by
  simp only [Draft.addEntry, List.getLast?_singleton, List.dropLast_singleton, Document.descend,
    Option.bind_eq_bind, Option.bind_some, List.nil_append, fresh]
  -- A single key always belongs to the table itself.
  refine if_pos ?_
  split <;> rfl

/-- A line that is read adds to the draft, and the line break behind it is
skipped with the next one. -/
theorem readLines_line {draft next : Draft} {line : Line} {first : Char} {more rest : Text}
    (solid : isSolid first = true) (read : readLine (first :: more) = some (line, '\n' :: rest))
    (added : draft.add line = some next) (fuel : Nat) :
    readLines (fuel + 2) draft (first :: more) = readLines (fuel + 1) next rest := by
  have hbreak : skipSpaces ('\n' :: rest) = '\n' :: rest := rfl
  have hends : endsLine ('\n' :: rest) = true := rfl
  have hskipped : readLines (fuel + 1) next ('\n' :: rest) = readLines (fuel + 1) next rest := rfl
  rw [readLines, skipGap_solid solid]
  simp [read, added, hbreak, hends, hskipped]

/-- An entry on a line of its own adds its key to the document. -/
theorem readLines_saveEntry {document : Document} {key written rest : Text} {found : Value}
    (bareKey : IsBareKey key) (fresh : document.at? [.key key] = none)
    (tight : skipSpaces (written ++ '\n' :: rest) = written ++ '\n' :: rest)
    (read : ∀ depth, readValue (depth + 2) (written ++ '\n' :: rest) = some (found, '\n' :: rest))
    (fuel : Nat) :
    readLines (fuel + 2) ⟨document, []⟩ (Config.saveEntry key written ++ rest) =
      readLines (fuel + 1) ⟨document ++ [([.key key], .value found)], []⟩ rest := by
  have htext : Config.saveEntry key written ++ rest =
      key ++ " = ".toList ++ (written ++ '\n' :: rest) := by
    simp [Config.saveEntry]
  have hline := readLine_bare bareKey tight read
  obtain ⟨first, more, hkey, hfirst⟩ := bareKey.exists_cons
  have hstart : key ++ " = ".toList ++ (written ++ '\n' :: rest) =
      first :: (more ++ " = ".toList ++ (written ++ '\n' :: rest)) := by
    rw [hkey]
    rfl
  rw [htext]
  rw [hstart] at hline ⊢
  exact readLines_line (isSolid_of_isBare hfirst) hline (addEntry_bare fresh) fuel

theorem skipSpaces_writeBoolean (value : Bool) (rest : Text) :
    skipSpaces (writeBoolean value ++ rest) = writeBoolean value ++ rest := by
  cases value <;> exact skipSpaces_solid rfl _

theorem skipSpaces_writeStrings (strings : List Text) (rest : Text) :
    skipSpaces (writeStrings strings ++ rest) = writeStrings strings ++ rest := by
  match strings with
  | [] | [_] | _ :: _ :: _ => exact skipSpaces_solid rfl _

end Deinstrument.Toml

namespace Deinstrument.Config

open Toml

theorem isBareKey_packagesKey : IsBareKey packagesKey :=
  ⟨by decide, List.all_eq_true.mp rfl⟩

theorem isBareKey_pruneKey : IsBareKey pruneKey :=
  ⟨by decide, List.all_eq_true.mp rfl⟩

theorem isBareKey_validateKey : IsBareKey validateKey :=
  ⟨by decide, List.all_eq_true.mp rfl⟩

theorem strings?_array (strings : List Text) :
    strings? (.array (strings.map .string)) = some strings := by
  rw [strings?]
  induction strings with
  | nil => rfl
  | cons string strings ih => simp [ih, string?]

/-- The document of a saved configuration. -/
def savedDocument (config : Config) : Document :=
  [([.key packagesKey], .value (.array (config.packages.map .string))),
    ([.key pruneKey], .value (.boolean config.pruneImports)),
    ([.key validateKey], .value (.boolean config.validateOutput))]

theorem ofDocument?_savedDocument (config : Config) :
    ofDocument? (savedDocument config) = some config := by
  have hpackages : setting (savedDocument config) packagesKey strings? standard.packages =
      some config.packages := strings?_array config.packages
  have hprune : setting (savedDocument config) pruneKey flag? standard.pruneImports =
      some config.pruneImports := rfl
  have hvalidate : setting (savedDocument config) validateKey flag? standard.validateOutput =
      some config.validateOutput := rfl
  rw [ofDocument?, hpackages, hprune, hvalidate]
  rfl

/-- The length of the text bounds how many lines are read, and three of them are
saved. -/
theorem three_lt_length_save (config : Config) : 3 < (save config).length := by
  have hkey : packagesKey.length = 19 := rfl
  simp only [save, saveEntry, List.length_append, hkey]
  omega

theorem read?_save (config : Config) : read? (save config) = some (savedDocument config) := by
  obtain ⟨fuel, hfuel⟩ := Nat.exists_eq_add_of_le' (three_lt_length_save config)
  have hmark : dropOrderMark (save config) = save config := rfl
  have hentries : save config = saveEntry packagesKey (writeStrings config.packages) ++
      (saveEntry pruneKey (writeBoolean config.pruneImports) ++
        (saveEntry validateKey (writeBoolean config.validateOutput) ++ [])) := by
    simp [save]
  rw [read?, hmark, hfuel, hentries,
    readLines_saveEntry isBareKey_packagesKey rfl (skipSpaces_writeStrings _ _)
      (fun _ => readValue_writeStrings _ _),
    readLines_saveEntry isBareKey_pruneKey rfl (skipSpaces_writeBoolean _ _)
      (fun _ => readValue_writeBoolean _),
    readLines_saveEntry isBareKey_validateKey rfl (skipSpaces_writeBoolean _ _)
      (fun _ => readValue_writeBoolean _)]
  rfl

/-- A saved configuration is loaded as it was, whatever its packages are. -/
theorem load_save (config : Config) : load (save config) = .ok config := by
  rw [load, read?_save, Option.bind_some, ofDocument?_savedDocument]

end Deinstrument.Config
