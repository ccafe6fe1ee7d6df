import Deinstrument.Proofs.Division
import Deinstrument.Proofs.Remainder
import Mathlib.Data.List.Chain

/-!
# Line breaks behind line comments

A line comment swallows whatever follows it on its line, so something must
follow it that starts on a new line. This module says when that is so for a
list of fragments, and when fragments can take the place of others without
spoiling it. A marker is a line comment itself: what followed it starts on a
new line, and can follow whatever stood in front of the marker.
-/

namespace Deinstrument

/-- Whether there is a line break among the blanks at the front of a text. -/
def Text.opensLine (text : Text) : Bool :=
  (text.takeWhile isBlank).contains '\n'

theorem Text.opensLine_append {text : Text} (opens : opensLine text = true) (more : Text) :
    opensLine (text ++ more) = true := by
  simp only [opensLine, List.contains_iff_mem] at opens ⊢
  rw [List.takeWhile_append]
  split
  · exact List.mem_append_left _ ((List.takeWhile_prefix _).subset opens)
  · exact opens

/-- Blank lines in front of a text do not take a line break away. -/
theorem Stmt.opensLine_carry (blank : Nat) {text : Text} (opens : Text.opensLine text = true) :
    Text.opensLine (carry blank text) = true := by
  unfold carry
  split
  · induction blank with
    | zero => exact opens
    | succ blank ih => simp [Text.opensLine, List.replicate_succ, Text.isBlank]
  · exact opens

/-- Whether an entry is a line comment. -/
def Comment.isLine (entry : Text) : Bool :=
  Text.startsWith (body entry) ['/', '/']

/-- An entry holds one comment and nothing behind it. -/
def Comment.IsSingle (entry : Text) : Prop :=
  length? (body entry) = some (body entry).length

/-- A marker is a line comment. -/
theorem Comment.isLine_of_isOn {marker : Marker} {entry : Text}
    (on : marker.isOn (body entry) = true) : isLine entry = true := by
  have hslashes : ['/', '/'] <+: marker.text := by cases marker <;> decide
  exact List.isPrefixOf_iff_prefix.mpr (hslashes.trans (List.isPrefixOf_iff_prefix.mp on))

/-- The text in front of a comment. -/
theorem Comment.take_eq_takeWhile (entry : Text) :
    entry.take (entry.length - (body entry).length) =
      entry.takeWhile fun character => Text.isBlank character || character == ';' := by
  have hjoin : entry.takeWhile (fun character => Text.isBlank character || character == ';') ++
      body entry = entry := List.takeWhile_append_dropWhile
  have hlength := congrArg List.length hjoin
  rw [List.length_append] at hlength
  conv => lhs; rw [← hjoin]
  rw [List.take_left' (by rw [hjoin]; omega)]

/-- A comment that starts on a new line is alone on its line. -/
theorem Cut.isOwnLine_of_opensLine {entry : Text} (opens : Text.opensLine entry = true) :
    isOwnLine entry = true := by
  rw [isOwnLine, Comment.take_eq_takeWhile, List.contains_iff_mem]
  rw [Text.opensLine, List.contains_iff_mem] at opens
  induction entry with
  | nil => cases opens
  | cons first rest ih =>
      by_cases hblank : Text.isBlank first = true
      · simp only [List.takeWhile_cons, hblank, Bool.true_or, if_true, List.mem_cons] at opens ⊢
        exact opens.imp_right ih
      · simp [hblank] at opens

namespace Fragment

/-! ## Fragments next to each other -/

/-- Whether a fragment is an attached line comment. -/
def isLine : Fragment → Bool
  | comment entry => Comment.isLine entry
  | _ => false

/-- Whether a fragment starts on a new line. -/
def opens (fragment : Fragment) : Bool :=
  Text.opensLine fragment.text

/-- A fragment can follow another one: a line comment ends before it. -/
def Follows (fragment next : Fragment) : Prop :=
  fragment.isLine = true → next.opens = true

/-- Every line comment among fragments ends before the next fragment. -/
def LinesEnd (fragments : List Fragment) : Prop :=
  fragments.IsChain Follows

/-- Fragments that can stand behind a line comment. -/
def Fresh (fragments : List Fragment) : Prop :=
  LinesEnd (.comment ['/', '/'] :: fragments)

theorem fresh_iff {fragments : List Fragment} :
    Fresh fragments ↔
      LinesEnd fragments ∧ ∀ first ∈ fragments.head?, first.opens = true := by
  have hline : isLine (.comment ['/', '/']) = true := by decide
  rw [Fresh, LinesEnd, List.isChain_cons, and_comm]
  simp only [Follows, hline, true_implies]
  rfl

theorem fresh_nil : Fresh [] :=
  List.isChain_singleton _

namespace LinesEnd

theorem append_fresh {front back : List Fragment} (first : LinesEnd front) (second : Fresh back) :
    LinesEnd (front ++ back) := by
  obtain ⟨hback, hopens⟩ := fresh_iff.mp second
  exact List.IsChain.append first hback fun _ _ next member _ => hopens next member

/-- Behind code anything may follow. -/
theorem append_code {front back : List Fragment} {source : Text}
    (first : LinesEnd (front ++ [.code source])) (second : LinesEnd back) :
    LinesEnd (front ++ [.code source] ++ back) := by
  refine List.IsChain.append first second ?_
  intro last hlast next hnext hline
  rw [List.getLast?_concat, Option.mem_some_iff] at hlast
  rw [← hlast] at hline
  cases hline

/-- Behind a line comment everything starts on a new line. -/
theorem fresh {fragment : Fragment} {fragments : List Fragment}
    (ends : LinesEnd (fragment :: fragments)) (line : fragment.isLine = true) :
    Fresh fragments :=
  List.IsChain.imp_head (fun follows _ => follows line) ends

end LinesEnd

namespace Fresh

theorem append {front back : List Fragment} (first : Fresh front) (second : Fresh back) :
    Fresh (front ++ back) :=
  LinesEnd.append_fresh first second

theorem of_front {fragments front : List Fragment} (fresh : Fresh fragments)
    (isFront : front <+: fragments) : Fresh front :=
  List.IsChain.prefix fresh (List.cons_prefix_cons.mpr ⟨rfl, isFront⟩)

/-- What stands at the front decides whether a line is opened. -/
theorem extend {front back : List Fragment} (fresh : Fresh front) (nonempty : front ≠ [])
    (ends : LinesEnd (front ++ back)) : Fresh (front ++ back) := by
  refine fresh_iff.mpr ⟨ends, ?_⟩
  rw [List.head?_append_of_ne_nil front nonempty]
  exact (fresh_iff.mp fresh).2

end Fresh

/-! ## Replacing fragments -/

/-- Fragments that can take the place of others wherever these stand. -/
def Replaces (fragments originals : List Fragment) : Prop :=
  ∀ front back, LinesEnd (front ++ originals ++ back) → LinesEnd (front ++ fragments ++ back)

namespace Replaces

theorem refl (fragments : List Fragment) : Replaces fragments fragments :=
  fun _ _ ends => ends

theorem trans {fragments middle originals : List Fragment} (late : Replaces fragments middle)
    (early : Replaces middle originals) : Replaces fragments originals :=
  fun front back ends => late front back (early front back ends)

theorem append {fragments fragments' originals originals' : List Fragment}
    (first : Replaces fragments originals) (second : Replaces fragments' originals') :
    Replaces (fragments ++ fragments') (originals ++ originals') := by
  intro front back ends
  have hfirst := first front (originals' ++ back) (by simpa using ends)
  have hsecond := second (front ++ fragments) back (by simpa using hfirst)
  simpa using hsecond

theorem fresh {fragments originals : List Fragment} (replaces : Replaces fragments originals)
    (fresh : Fresh originals) : Fresh fragments := by
  have hends := replaces [.comment ['/', '/']] [] (by simpa [Fresh] using fresh)
  simpa [Fresh] using hends

/-- A fragment on a line of its own can be dropped if it is a line comment. -/
theorem drop {fragment : Fragment} (line : fragment.opens = true → fragment.isLine = true) :
    Replaces [] [fragment] := by
  intro front back ends
  rw [List.append_assoc, List.singleton_append] at ends
  obtain ⟨hfront, hbehind, hjoint⟩ := List.isChain_append.mp ends
  obtain ⟨hnext, hback⟩ := List.isChain_cons.mp hbehind
  rw [List.append_nil]
  refine List.IsChain.append hfront hback ?_
  intro last hlast next member hline
  exact hnext next member (line (hjoint last hlast fragment rfl hline))

/-- Line breaks can be put in front of a fragment. -/
theorem lower {fragment original : Fragment} (line : fragment.isLine = original.isLine)
    (opens : original.opens = true → fragment.opens = true) : Replaces [fragment] [original] := by
  intro front back ends
  rw [List.append_assoc, List.singleton_append] at ends ⊢
  obtain ⟨hfront, hbehind, hjoint⟩ := List.isChain_append.mp ends
  obtain ⟨hnext, hback⟩ := List.isChain_cons.mp hbehind
  refine List.IsChain.append hfront (List.isChain_cons.mpr ⟨?_, hback⟩) ?_
  · intro next member hline
    exact hnext next member (line ▸ hline)
  · intro last hlast next member hline
    rw [List.head?_cons, Option.mem_some_iff] at member
    rw [← member]
    exact opens (hjoint last hlast original rfl hline)

/-- Comments can be left out if those on lines of their own are line comments. -/
theorem filter {keeps : Text → Bool} {entries : List Text}
    (line : ∀ entry ∈ entries, keeps entry = false → Text.opensLine entry = true →
      Comment.isLine entry = true) :
    Replaces ((entries.filter keeps).map .comment) (entries.map .comment) := by
  induction entries with
  | nil => exact .refl []
  | cons first rest ih =>
      obtain ⟨hfirst, hrest⟩ := List.forall_mem_cons.mp line
      by_cases hkeeps : keeps first = true
      · rw [List.filter_cons_of_pos hkeeps]
        exact (Replaces.refl [.comment first]).append (ih hrest)
      · rw [List.filter_cons_of_neg hkeeps]
        have hdropped : Replaces [] [.comment first] :=
          drop (hfirst (Bool.eq_false_iff.mpr hkeeps))
        exact hdropped.append (ih hrest)

/-- Comments that do not stay are not alone on their lines, or they are markers. -/
theorem filter_stays (entries : List Text) :
    Replaces ((entries.filter Cut.stays).map .comment) (entries.map .comment) := by
  refine filter fun entry _ hleaves hopens => ?_
  rw [Cut.stays, Cut.isOwnLine_of_opensLine hopens, Bool.true_and, ← Option.not_isSome,
    Bool.not_eq_false', Option.isSome_iff_exists] at hleaves
  obtain ⟨marker, hmarker⟩ := hleaves
  exact Comment.isLine_of_isOn (Marker.classify_eq_some_iff.mp hmarker)

/-- Blank lines can be put in front of a comment. -/
theorem carry_comment (blank : Nat) (entry : Text) :
    Replaces [.comment (Stmt.carry blank entry)] [.comment entry] := by
  refine lower ?_ (Stmt.opensLine_carry blank)
  simp only [isLine, Comment.isLine, Stmt.body_carry]

/-- Blank lines can be put in front of code. -/
theorem carry_code (blank : Nat) (source : Text) :
    Replaces [.code (Stmt.carry blank source)] [.code source] :=
  lower rfl (Stmt.opensLine_carry blank)

/-- Markers can be dropped, and blank lines handed on. -/
theorem dropEntries (marker : Marker) (blank : Nat) (entries : List Text) (space : Text) :
    Replaces ((Stmt.dropEntries marker.isOn blank entries space).1.map .comment)
      (entries.map .comment) ∧
    Replaces [.code (Stmt.dropEntries marker.isOn blank entries space).2.1] [.code space] := by
  induction entries generalizing blank with
  | nil => exact ⟨.refl [], carry_code blank space⟩
  | cons first rest ih =>
      by_cases hdrops : marker.isOn (Comment.body first) = true
      · obtain ⟨hentries, hspace⟩ := ih (Stmt.blankLines (Stmt.carry blank first))
        rw [Stmt.dropEntries_cons_drop hdrops]
        have hdropped : Replaces [] [.comment first] := drop fun _ => Comment.isLine_of_isOn hdrops
        exact ⟨hdropped.append hentries, hspace⟩
      · obtain ⟨hentries, hspace⟩ := ih 0
        rw [Stmt.dropEntries_cons_keep hdrops]
        exact ⟨(carry_comment blank first).append hentries, hspace⟩

end Replaces

end Fragment

open Fragment (LinesEnd Fresh Replaces)

variable {Action : Type}

/-- Comments that stem from single ones are single. -/
theorem Comment.StemFrom.single {sources entries : List Text} (stem : StemFrom sources entries)
    (single : ∀ source ∈ sources, IsSingle source) : ∀ entry ∈ entries, IsSingle entry := by
  induction stem with
  | nil => exact fun _ member => nomatch member
  | cons lowered rest ih =>
      obtain ⟨hfirst, hrest⟩ := List.forall_mem_cons.mp single
      refine List.forall_mem_cons.mpr ⟨?_, ih hrest⟩
      rwa [IsSingle, lowered.body_eq]
  | cons_right rest ih => exact ih (List.forall_mem_cons.mp single).2

namespace Stmt

/-! ## Statements -/

/-- What stands in front of a statement. -/
def leading (stmt : Stmt Action) : List Fragment :=
  stmt.before.map .comment ++ [.code stmt.space]

/-- The fragments of a statement, with its action as one piece of code. -/
def outline (action : Action → Text) (stmt : Stmt Action) : List Fragment :=
  stmt.leading ++ [.code (action stmt.action ++ stmt.terminator)] ++ stmt.after.map .comment

theorem text_outline (action : Action → Text) (stmt : Stmt Action) :
    (stmt.outline action).flatMap Fragment.text = stmt.print action := by
  simp [outline, leading, print, Fragment.text, List.flatMap_map]

/-- Whether the first comment above a statement, or else the statement itself,
starts on a new line. -/
def opensLine (stmt : Stmt Action) : Bool :=
  Text.opensLine (stmt.before.headD stmt.space)

theorem fresh_leading_iff {stmt : Stmt Action} :
    Fresh stmt.leading ↔ LinesEnd stmt.leading ∧ stmt.opensLine = true := by
  rw [Fragment.fresh_iff]
  obtain ⟨before, space, act, terminator, after, line⟩ := stmt
  cases before <;> simp [leading, opensLine, Fragment.opens, Fragment.text]

/-- The comments of a statement are where they can be moved from: those above it
start on a new line, and so do those behind it that stay when it is cut out. -/
structure LineSafe (stmt : Stmt Action) : Prop where
  above : Fresh (stmt.before.map .comment)
  behind : Fresh ((stmt.after.filter Cut.stays).map .comment)
  single : ∀ entry ∈ stmt.before ++ stmt.after, Comment.IsSingle entry

/-- A statement that has lost markers can take the place of the original. -/
structure Loses (stmt original : Stmt Action) : Prop extends SameAs stmt original where
  before : Replaces (stmt.before.map .comment) (original.before.map .comment)
  space : Replaces [.code stmt.space] [.code original.space]
  after : Replaces (stmt.after.map .comment) (original.after.map .comment)
  stays : stmt.after.filter Cut.stays = original.after.filter Cut.stays
  single : (∀ entry ∈ original.before ++ original.after, Comment.IsSingle entry) →
    ∀ entry ∈ stmt.before ++ stmt.after, Comment.IsSingle entry

namespace Loses

theorem trans {stmt middle original : Stmt Action} (late : Loses stmt middle)
    (early : Loses middle original) : Loses stmt original where
  toSameAs := late.toSameAs.trans early.toSameAs
  before := late.before.trans early.before
  space := late.space.trans early.space
  after := late.after.trans early.after
  stays := late.stays.trans early.stays
  single original := late.single (early.single original)

theorem leading {stmt original : Stmt Action} (loses : Loses stmt original) :
    Replaces stmt.leading original.leading :=
  loses.before.append loses.space

theorem outline {stmt original : Stmt Action} (loses : Loses stmt original)
    (action : Action → Text) : Replaces (stmt.outline action) (original.outline action) := by
  have hcode : Replaces [.code (action stmt.action ++ stmt.terminator)]
      [.code (action original.action ++ original.terminator)] := by
    rw [loses.action, loses.terminator]
    exact .refl _
  exact (loses.leading.append hcode).append loses.after

theorem lineSafe {stmt original : Stmt Action} (loses : Loses stmt original)
    (safe : original.LineSafe) : stmt.LineSafe where
  above := loses.before.fresh safe.above
  behind := loses.stays ▸ safe.behind
  single := loses.single safe.single

end Loses

theorem loses_stripBefore (stmt : Stmt Action) (marker : Marker) :
    Loses (stmt.stripBefore marker).1 stmt := by
  obtain ⟨hbefore, hspace⟩ := Replaces.dropEntries marker 0 stmt.before stmt.space
  refine ⟨⟨rfl, rfl, rfl⟩, hbefore, hspace, .refl _, rfl, ?_⟩
  exact (stmt.staysAs_stripBefore marker).comments.single

theorem loses_stripAfter (stmt : Stmt Action) (marker : Marker) :
    Loses (stmt.stripAfter marker).1 stmt := by
  refine ⟨⟨rfl, rfl, rfl⟩, .refl _, .refl _, ?_, ?_, ?_⟩
  · refine Replaces.filter fun entry _ hdropped _ => ?_
    exact Comment.isLine_of_isOn (by simpa using hdropped)
  · simp only [stripAfter, dropAfter, List.filter_filter]
    refine List.filter_congr fun entry _ => ?_
    rw [Marker.isOn_eq_decide]
    cases hkind : Marker.classify entry <;> simp [Cut.stays, hkind]
  · intro single entry member
    refine single entry ?_
    simp only [stripAfter, dropAfter, List.mem_append, List.mem_filter] at member ⊢
    exact member.imp_right And.left

theorem loses_strip (stmt : Stmt Action) (marker : Marker) : Loses (stmt.strip marker).1 stmt :=
  ((stmt.stripBefore marker).1.loses_stripAfter marker).trans (stmt.loses_stripBefore marker)

end Stmt

/-- A start marker without an end can be dropped. -/
theorem Region.loses_openedAt (stmt : Stmt Action) : Stmt.Loses (openedAt stmt) stmt := by
  have hcomments := (staysAs_openedAt stmt).comments
  obtain ⟨carried, left, hdetach, hbefore⟩ := stmt.detach_eq .regionStart
  obtain ⟨hleft, hspace⟩ := Replaces.dropEntries .regionStart 0 left stmt.space
  refine ⟨(staysAs_openedAt stmt).toSameAs, ?_, ?_, ?_, ?_, hcomments.single⟩
  · have hwhole := (Replaces.refl (carried.map .comment)).append hleft
    rw [← List.map_append, ← List.map_append, hbefore] at hwhole
    rw [openedAt, hdetach]
    exact hwhole
  · rw [openedAt, hdetach]
    exact hspace
  · rw [(staysAs_openedAt stmt).after]
    exact .refl _
  · rw [(staysAs_openedAt stmt).after]

namespace Stmt

/-! ## Statements that go -/

/-- What becomes of statements when some of them go. Where statements have gone,
the next one that stays starts on a new line; `gone` says whether that is so in
front of the first one. -/
inductive Thinned : Bool → List (Stmt Action) → List (Stmt Action) → Prop
  | nil (gone : Bool) : Thinned gone [] []
  | stay {gone : Bool} {original stmt : Stmt Action} {rest kept : List (Stmt Action)}
      (same : SameAs stmt original) (breaks : original.opensLine = true → stmt.opensLine = true)
      (apart : gone = true → stmt.opensLine = true) (later : Thinned false rest kept) :
      Thinned gone (original :: rest) (stmt :: kept)
  | leave {gone : Bool} {original : Stmt Action} {rest kept : List (Stmt Action)}
      (later : Thinned true rest kept) : Thinned gone (original :: rest) kept

namespace Thinned

theorem refl (stmts : List (Stmt Action)) : Thinned false stmts stmts := by
  induction stmts with
  | nil => exact .nil false
  | cons stmt rest ih => exact .stay (.refl stmt) id (fun gone => nomatch gone) ih

theorem front (stmts : List (Stmt Action)) {rest kept : List (Stmt Action)}
    (later : Thinned false rest kept) : Thinned false (stmts ++ rest) (stmts ++ kept) := by
  induction stmts with
  | nil => exact later
  | cons stmt more ih => exact .stay (.refl stmt) id (fun gone => nomatch gone) ih

theorem leaveAll (interval : List (Stmt Action)) {gone : Bool} {rest kept : List (Stmt Action)}
    (later : Thinned true rest kept) (nonempty : interval ≠ []) :
    Thinned gone (interval ++ rest) kept := by
  induction interval generalizing gone with
  | nil => contradiction
  | cons stmt more ih =>
      refine .leave ?_
      cases more with
      | nil => exact later
      | cons next more => exact ih (List.cons_ne_nil next more)

/-- Statements go in two passes. -/
theorem trans {gone gone' : Bool} {stmts middle kept : List (Stmt Action)}
    (early : Thinned gone stmts middle) (late : Thinned gone' middle kept) :
    Thinned (gone || gone') stmts kept := by
  induction early generalizing gone' kept with
  | nil gone =>
      cases late
      exact .nil _
  | @stay gone original stmt rest middle same breaks apart later ih =>
      cases late with
      | @stay _ _ stmt' _ kept same' breaks' apart' later' =>
          refine .stay (same'.trans same) (breaks' ∘ breaks) ?_ (ih later')
          intro hgone
          rcases Bool.or_eq_true_iff.mp hgone with hgone | hgone
          · exact breaks' (apart hgone)
          · exact apart' hgone
      | leave later' => exact .leave (ih later')
  | leave later ih => exact .leave (ih late)

end Thinned

end Stmt

end Deinstrument
