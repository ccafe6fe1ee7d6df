import Deinstrument.Code.Visit

/-!
# Markers

A marker is a comment that starts with one of five fixed texts; whatever
follows that text is ignored. Markers are looked for among the comments
attached to statements.
-/

namespace Deinstrument

/-- The kinds of markers. -/
inductive Marker
  /-- Opens a region of inserted statements. -/
  | regionStart
  | regionEnd
  /-- Opens a span of inserted statements. -/
  | spanStart
  | spanEnd
  /-- Tags a statement that was instrumented in place. -/
  | instrumented
  deriving DecidableEq, Repr

namespace Marker

/-- All kinds in the order in which they are tried. -/
def all : List Marker :=
  [.regionStart, .regionEnd, .spanStart, .spanEnd, .instrumented]

/-- The text with which a marker comment starts. -/
def text : Marker → Text
  | .regionStart => "//dd:startwrap".toList
  | .regionEnd => "//dd:endwrap".toList
  | .spanStart => "//dd:startinstrument".toList
  | .spanEnd => "//dd:endinstrument".toList
  | .instrumented => "//dd:instrumented".toList

def name : Marker → String
  | .regionStart => "region-start"
  | .regionEnd => "region-end"
  | .spanStart => "span-start"
  | .spanEnd => "span-end"
  | .instrumented => "already-instrumented"

/-- Whether a comment is a marker of a kind. -/
def isOn (marker : Marker) (comment : Text) : Bool :=
  Text.startsWith comment marker.text

/-- The kind of marker that a decoration entry is, if it is one. -/
def classify (entry : Text) : Option Marker :=
  all.find? fun marker => marker.isOn (Comment.body entry)

def ofName? (name : String) : Option Marker :=
  all.find? fun marker => marker.name == name

end Marker

namespace Stmt

variable {Action : Type}

/-- Whether a marker stands above a statement. -/
def hasBefore (stmt : Stmt Action) (marker : Marker) : Bool :=
  stmt.before.any fun entry => marker.isOn (Comment.body entry)

/-- Whether a marker stands behind a statement. -/
def hasAfter (stmt : Stmt Action) (marker : Marker) : Bool :=
  stmt.after.any fun entry => marker.isOn (Comment.body entry)

/-- Drop the markers of a kind above a statement and count them. -/
def stripBefore (stmt : Stmt Action) (marker : Marker) : Stmt Action × Nat :=
  stmt.dropBefore marker.isOn

/-- Drop the markers of a kind behind a statement and count them. -/
def stripAfter (stmt : Stmt Action) (marker : Marker) : Stmt Action × Nat :=
  stmt.dropAfter marker.isOn

/-- Drop the markers of a kind on either side of a statement and count them. -/
def strip (stmt : Stmt Action) (marker : Marker) : Stmt Action × Nat :=
  stmt.dropBoth marker.isOn

/-- Take off the comments above the first marker of a kind; without such a
marker nothing is taken. -/
def detach (stmt : Stmt Action) (marker : Marker) : List Text × Stmt Action :=
  match stmt.before.findIdx? fun entry => Marker.classify entry = some marker with
  | some position =>
      (stmt.before.take position, { stmt with before := stmt.before.drop position })
  | none => ([], stmt)

/-- Put comments in front of all others above a statement. -/
def attach (entries : List Text) (stmt : Stmt Action) : Stmt Action :=
  { stmt with before := entries ++ stmt.before }

/-- The number of markers attached to a statement. -/
def markerCount (stmt : Stmt Action) : Nat :=
  (stmt.before ++ stmt.after).countP fun entry => (Marker.classify entry).isSome

end Stmt

namespace Block

/-- The number of markers of a block itself: on its statements, and among the
comments beside its braces. -/
def ownMarkerCount {Action : Type} (block : Block Action) : Nat :=
  (block.stmts.map Stmt.markerCount).foldr (· + ·) 0 +
    (Text.lines (block.opening.dropWhile (· == '{')) ++ Text.lines block.closing).countP
      fun line => (Marker.classify line).isSome

/-- The number of markers of a block and of the function values in it. -/
def markerCount (block : Block Action) : Nat :=
  (((visitsBlock block).filterMap Visit.block?).map ownMarkerCount).foldr (· + ·) 0

end Block

end Deinstrument
