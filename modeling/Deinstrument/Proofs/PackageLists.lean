import Deinstrument.Config
import Mathlib.Data.List.DropRight

/-!
# Lists of packages in a variable

The packages can be given by a variable in which commas separate them. Blanks
around a path and segments without a path do not count. What is read is exactly
the list that was written, and whatever the variable holds, each path that is
read is one that can stand in such a list. So the settings are valid unless
there is no path at all.
-/

namespace Deinstrument

namespace Text

/-! ## Splitting and joining -/

theorem splitOn_eq (separator : Char) (text : Text) :
    splitOn separator text = List.splitOn separator text := by
  induction text with
  | nil => rfl
  | cons first rest ih =>
      rw [List.splitOn_eq_splitOnP] at ih ⊢
      rw [List.splitOnP_cons_eq_if_modifyHead, splitOn, ← ih]
      split
      · rfl
      · split
        · exact absurd ‹_› (splitOn_ne_nil separator rest)
        · rename_i hpieces
          rw [hpieces]
          rfl

theorem splitOn_append_cons (separator : Char) (front back : Text) :
    splitOn separator (front ++ separator :: back) =
      splitOn separator front ++ splitOn separator back := by
  rw [splitOn_eq, splitOn_eq, splitOn_eq, List.splitOn_append_cons_self]

theorem splitOn_of_not_mem {separator : Char} {text : Text} (absent : separator ∉ text) :
    splitOn separator text = [text] := by
  rw [splitOn_eq, List.splitOn_eq_singleton absent]

theorem join_eq (separator : Text) (texts : List Text) :
    join separator texts = List.intercalate separator texts := by
  fun_induction join with
  | case1 => rfl
  | case2 text => exact List.intercalate_singleton.symm
  | case3 text rest several ih =>
      obtain ⟨next, rest, rfl⟩ := List.exists_cons_of_ne_nil several
      rw [ih, List.intercalate_cons_cons]

/-- The pieces of a text do not hold the character that separates them. -/
theorem not_mem_of_mem_splitOn {separator : Char} {text piece : Text}
    (member : piece ∈ splitOn separator text) : separator ∉ piece := by
  fun_induction splitOn separator text generalizing piece with
  | case1 => simp_all
  | case2 first rest same ih =>
      rcases List.mem_cons.mp member with rfl | hlater
      · simp
      · exact ih hlater
  | case3 first rest other none ih => exact absurd none (splitOn_ne_nil separator rest)
  | case4 first rest other next pieces split ih =>
      rcases List.mem_cons.mp member with rfl | hlater
      · rw [List.mem_cons, not_or]
        refine ⟨fun same => other ?_, ih (split ▸ List.mem_cons_self)⟩
        rw [same]
        exact beq_self_eq_true first
      · exact ih (split ▸ List.mem_cons_of_mem _ hlater)

/-! ## Trimming -/

/-- A text that neither starts nor ends with a blank. -/
structure IsTrimmed (text : Text) : Prop where
  front : ∀ character, text.head? = some character → isBlank character = false
  back : ∀ character, text.getLast? = some character → isBlank character = false

def IsBlankText (text : Text) : Prop :=
  ∀ character ∈ text, isBlank character = true

theorem trimStart_eq_self {text : Text}
    (front : ∀ character, text.head? = some character → isBlank character = false) :
    trimStart text = text := by
  cases text with
  | nil => rfl
  | cons first rest =>
      refine List.dropWhile_cons_of_neg ?_
      rw [front first rfl]
      exact Bool.false_ne_true

theorem trimEnd_eq_self {text : Text}
    (back : ∀ character, text.getLast? = some character → isBlank character = false) :
    trimEnd text = text := by
  have hreversed : trimStart text.reverse = text.reverse := by
    refine trimStart_eq_self fun character found => back character ?_
    rwa [List.head?_reverse] at found
  exact (congrArg List.reverse hreversed).trans (List.reverse_reverse text)

theorem trimEnd_append_blanks {text blanks : Text} (blank : IsBlankText blanks) :
    trimEnd (text ++ blanks) = trimEnd text := by
  rw [trimEnd, List.reverse_append, List.dropWhile_append_of_pos, trimEnd]
  exact fun character member => blank character (List.mem_reverse.mp member)

theorem trim_blanks {blanks : Text} (blank : IsBlankText blanks) : trim blanks = [] := by
  have hstart : trimStart blanks = [] := List.dropWhile_eq_nil_iff.mpr blank
  rw [trim, hstart]
  rfl

theorem IsTrimmed.trim_eq {text : Text} (trimmed : IsTrimmed text) : trim text = text := by
  rw [trim, trimStart_eq_self trimmed.front, trimEnd_eq_self trimmed.back]

/-- Trimming takes off the blanks around a text. -/
theorem trim_append {front text back : Text} (before : IsBlankText front)
    (trimmed : IsTrimmed text) (after : IsBlankText back) :
    trim (front ++ text ++ back) = text := by
  have hstart : trimStart (front ++ text ++ back) = trimStart (text ++ back) := by
    rw [List.append_assoc]
    exact List.dropWhile_append_of_pos before
  cases text with
  | nil => exact (congrArg trimEnd hstart).trans (trim_blanks after)
  | cons first rest =>
      have hrest : trimStart (first :: rest ++ back) = first :: rest ++ back :=
        trimStart_eq_self trimmed.front
      rw [trim, hstart, hrest, trimEnd_append_blanks after, trimEnd_eq_self trimmed.back]

/-- A text is what is left of it after trimming, between blanks. -/
theorem exists_trim (text : Text) :
    ∃ front back, text = front ++ trim text ++ back ∧ IsBlankText front ∧ IsBlankText back := by
  refine ⟨text.takeWhile isBlank, (trimStart text).rtakeWhile isBlank, ?_,
    fun _ member => List.mem_takeWhile_imp member, fun _ member => List.mem_rtakeWhile_imp member⟩
  have hend : trim text ++ (trimStart text).rtakeWhile isBlank = trimStart text :=
    List.rdropWhile_append_rtakeWhile
  rw [List.append_assoc, hend]
  exact List.takeWhile_append_dropWhile.symm

theorem isTrimmed_trim (text : Text) : IsTrimmed (trim text) := by
  constructor
  · intro character found
    obtain ⟨rest, hrest⟩ := List.head?_eq_some_iff.mp found
    have hprefix : trim text <+: trimStart text := List.rdropWhile_prefix isBlank (trimStart text)
    obtain ⟨back, hback⟩ := hprefix
    have hhead := List.head?_dropWhile_not isBlank text
    have hstart : (text.dropWhile isBlank).head? = some character := by
      rw [← trimStart, ← hback, hrest]
      rfl
    rw [hstart] at hhead
    exact hhead
  · intro character found
    have hne : trim text ≠ [] := by
      rintro hnil
      rw [hnil] at found
      cases found
    rw [List.getLast?_eq_some_getLast hne] at found
    cases found
    exact Bool.eq_false_iff.mpr (List.rdropWhile_last_not isBlank (trimStart text) hne)

end Text

namespace Config

/-! ## Lists of paths -/

/-- A path that can stand in a list: it is not empty, holds no comma, and has no
blanks around it. -/
structure IsListable (path : Text) : Prop where
  nonempty : path ≠ []
  undivided : ',' ∉ path
  trimmed : Text.IsTrimmed path

/-- Segments that list paths: each of them holds a path between blanks, or blanks
only. -/
inductive Lists : List Text → List Text → Prop
  | nil : Lists [] []
  | blank {segments paths : List Text} {blanks : Text} (blank : Text.IsBlankText blanks)
      (rest : Lists segments paths) : Lists (blanks :: segments) paths
  | path {segments paths : List Text} {front path back : Text}
      (before : Text.IsBlankText front) (after : Text.IsBlankText back)
      (rest : Lists segments paths) : Lists ((front ++ path ++ back) :: segments) (path :: paths)

/-- The paths in segments, without the blanks around them. -/
def pathsIn (segments : List Text) : List Text :=
  (segments.map Text.trim).filter fun path => !path.isEmpty

theorem pathsIn_cons (segment : Text) (segments : List Text) :
    pathsIn (segment :: segments) =
      if Text.trim segment = [] then pathsIn segments
      else Text.trim segment :: pathsIn segments := by
  by_cases hnil : Text.trim segment = []
  · simp [pathsIn, hnil]
  · simp [pathsIn, hnil]

theorem comma_not_mem_of_isBlankText {blanks : Text} (blank : Text.IsBlankText blanks) :
    ',' ∉ blanks := by
  intro member
  cases blank ',' member

section Segments

variable {segments paths : List Text}

theorem Lists.undivided (lists : Lists segments paths)
    (listable : ∀ path ∈ paths, IsListable path) : ∀ segment ∈ segments, ',' ∉ segment := by
  induction lists with
  | nil => simp
  | blank blank rest ih =>
      exact List.forall_mem_cons.mpr ⟨comma_not_mem_of_isBlankText blank, ih listable⟩
  | path before after rest ih =>
      obtain ⟨hpath, hpaths⟩ := List.forall_mem_cons.mp listable
      refine List.forall_mem_cons.mpr ⟨?_, ih hpaths⟩
      simp only [List.mem_append, not_or]
      exact ⟨⟨comma_not_mem_of_isBlankText before, hpath.undivided⟩,
        comma_not_mem_of_isBlankText after⟩

theorem Lists.pathsIn_eq (lists : Lists segments paths)
    (listable : ∀ path ∈ paths, IsListable path) : pathsIn segments = paths := by
  induction lists with
  | nil => rfl
  | blank blank rest ih =>
      rw [pathsIn_cons, if_pos (Text.trim_blanks blank), ih listable]
  | path before after rest ih =>
      obtain ⟨hpath, hpaths⟩ := List.forall_mem_cons.mp listable
      rw [pathsIn_cons, Text.trim_append before hpath.trimmed after, if_neg hpath.nonempty,
        ih hpaths]

/-- Segments list the paths in them. -/
theorem lists_pathsIn (segments : List Text) : Lists segments (pathsIn segments) := by
  induction segments with
  | nil => exact .nil
  | cons segment segments ih =>
      obtain ⟨front, back, hsegment, hfront, hback⟩ := Text.exists_trim segment
      rw [pathsIn_cons]
      split
      · rename_i hnil
        refine .blank ?_ ih
        rw [hsegment, hnil, List.append_nil]
        exact List.forall_mem_append.mpr ⟨hfront, hback⟩
      · nth_rewrite 1 [hsegment]
        exact .path hfront hback ih

end Segments

theorem splitPackages_eq (list : Text) : splitPackages list = pathsIn (Text.splitOn ',' list) :=
  rfl

/-- Every path that is read could have been listed. -/
theorem isListable_of_mem_splitPackages {list path : Text} (member : path ∈ splitPackages list) :
    IsListable path := by
  obtain ⟨htrim, hnonempty⟩ := List.mem_filter.mp member
  obtain ⟨segment, hsegment, rfl⟩ := List.mem_map.mp htrim
  refine ⟨by simpa using hnonempty, ?_, Text.isTrimmed_trim segment⟩
  intro hcomma
  obtain ⟨front, back, hsplit, -, -⟩ := Text.exists_trim segment
  refine Text.not_mem_of_mem_splitOn hsegment ?_
  rw [hsplit]
  simp [hcomma]

/-- Reading a list gives the paths for which it was written, and no others. -/
theorem splitPackages_eq_iff {list : Text} {paths : List Text} :
    splitPackages list = paths ↔ (∀ path ∈ paths, IsListable path) ∧
      ∃ segments, Lists segments paths ∧ list = Text.join [','] segments := by
  constructor
  · rintro rfl
    refine ⟨fun path member => isListable_of_mem_splitPackages member,
      Text.splitOn ',' list, lists_pathsIn _, ?_⟩
    rw [Text.join_eq, Text.splitOn_eq, List.intercalate_splitOn]
  · rintro ⟨hlistable, segments, hlists, rfl⟩
    cases segments with
    | nil =>
        cases hlists
        rfl
    | cons segment segments =>
        rw [splitPackages_eq, Text.splitOn_eq, Text.join_eq, List.splitOn_intercalate ',' _ _]
        · exact hlists.pathsIn_eq hlistable
        · exact hlists.undivided hlistable
        · exact List.cons_ne_nil _ _

/-! ## Settings -/

theorem packages_override {lookup : Text → Option Text} {value : Text}
    (given : lookup packagesVariable = some value) (config : Config) :
    (override lookup config).1.packages = splitPackages value := by
  have hfirst : (overridePackages (lookup packagesVariable) config).packages =
      splitPackages value := by rw [given]; rfl
  unfold override
  split
  · exact hfirst
  · split <;> exact hfirst

/-- Settings whose paths are not blank are refused exactly if there are none. -/
theorem validate_error_iff {config : Config}
    (listable : ∀ path ∈ config.packages, IsListable path) :
    (∃ error, config.validate = .error error) ↔ config.packages = [] := by
  have hblank : blankPosition? config.packages = none := by
    rw [blankPosition?, List.findIdx?_eq_none_iff]
    intro path member
    rw [(listable path member).trimmed.trim_eq]
    simpa using (listable path member).nonempty
  rw [validate, hblank]
  cases config.packages with
  | nil => simp
  | cons path packages => simp

/-- A variable sets the packages to the paths that it lists: they are separated by
commas, with any blanks around them and any number of blank segments in between.
Whatever else the variable holds, every path that is set is not empty, trimmed and
free of commas, so the settings are refused exactly if there is no path. This does not
depend on whether the other variable is accepted. -/
theorem override_sets_listed {lookup : Text → Option Text} {value : Text}
    (given : lookup packagesVariable = some value) (config : Config) :
    (∀ paths, (override lookup config).1.packages = paths ↔
      (∀ path ∈ paths, IsListable path) ∧
      ∃ segments, Lists segments paths ∧ value = Text.join [','] segments) ∧
    (∀ path ∈ (override lookup config).1.packages, IsListable path) ∧
    ((∃ error, (override lookup config).1.validate = .error error) ↔
      (override lookup config).1.packages = []) := by
  have hlistable : ∀ path ∈ (override lookup config).1.packages, IsListable path := by
    rw [packages_override given]
    exact fun path member => isListable_of_mem_splitPackages member
  refine ⟨fun paths => ?_, hlistable, validate_error_iff hlistable⟩
  rw [packages_override given]
  exact splitPackages_eq_iff

/-- An environment with two paths among blanks, and with a word that is no truth value. -/
def paddedEnvironment (name : Text) : Option Text :=
  if name = packagesVariable then some " a/b\t,, c ,\n,".toList else some "sometimes".toList

theorem override_sets_listed_paddedEnvironment :
    paddedEnvironment packagesVariable = some " a/b\t,, c ,\n,".toList ∧
    (override paddedEnvironment standard).1.packages = ["a/b".toList, "c".toList] ∧
    (override paddedEnvironment standard).1.validate = .ok () ∧
    (override paddedEnvironment standard).2 =
      .error (.notBoolean pruneVariable "sometimes".toList) := by
  have given : paddedEnvironment packagesVariable = some " a/b\t,, c ,\n,".toList := rfl
  have hfirst : IsListable "a/b".toList :=
    ⟨by decide, by decide, ⟨by rintro _ ⟨⟩; rfl, by rintro _ ⟨⟩; rfl⟩⟩
  have hsecond : IsListable "c".toList :=
    ⟨by decide, by decide, ⟨by rintro _ ⟨⟩; rfl, by rintro _ ⟨⟩; rfl⟩⟩
  have hblank (character : Char) (blank : Text.isBlank character = true) :
      Text.IsBlankText [character] := by
    simpa [Text.IsBlankText] using blank
  have hnone : Text.IsBlankText [] := by simp [Text.IsBlankText]
  have hlists :
      Lists [[' '] ++ "a/b".toList ++ ['\t'], [], [' '] ++ "c".toList ++ [' '], ['\n'], []]
        ["a/b".toList, "c".toList] :=
    .path (hblank ' ' rfl) (hblank '\t' rfl) (.blank hnone
      (.path (hblank ' ' rfl) (hblank ' ' rfl) (.blank (hblank '\n' rfl) (.blank hnone .nil))))
  obtain ⟨hpackages, -, hvalidate⟩ := override_sets_listed given standard
  have hset := (hpackages ["a/b".toList, "c".toList]).mpr
    ⟨List.forall_mem_cons.mpr ⟨hfirst, List.forall_mem_singleton.mpr hsecond⟩, _, hlists, rfl⟩
  refine ⟨given, hset, ?_, by decide⟩
  cases hresult : (override paddedEnvironment standard).1.validate with
  | error error =>
      have hempty := hvalidate.mp ⟨error, hresult⟩
      rw [hset] at hempty
      cases hempty
  | ok => rfl

end Config

end Deinstrument
