import Deinstrument.Toml.Value

/-!
# Configuration documents

A document is a sequence of entries, headers of tables and headers of elements
in lists of tables. It is kept as the list of all places that it has made so
far, which is enough to tell that no place is made twice.
-/

namespace Deinstrument.Toml

/-- One step down in a document. -/
inductive Segment
  /-- Into a table, by key. -/
  | key (name : Text)
  /-- Into a list of tables, by position. -/
  | element (position : Nat)
  deriving DecidableEq, Repr

/-- A place in a document, from the outermost table down. -/
abbrev Path := List Segment

/-- What stands at a place. -/
inductive Content
  | value (value : Value)
  /-- A table with a header. -/
  | opened
  /-- A table that a header below it brings about. -/
  | implied
  /-- A table that keys with points bring about. -/
  | dotted
  /-- A list of tables with headers. -/
  | tables (count : Nat)
  deriving Repr

/-- All places of a document with what stands there. -/
abbrev Document := List (Path × Content)

/-- A document under construction, and the table that entries belong to. -/
structure Draft where
  document : Document
  table : Path
  deriving Repr

/-- The lines that say something. -/
inductive Line
  | entry (keys : List Text) (value : Value)
  | header (keys : List Text)
  /-- The header of a further element in a list of tables. -/
  | element (keys : List Text)
  deriving Repr

namespace Document

/-- What stands at a place. -/
def at? (document : Document) (path : Path) : Option Content :=
  document.lookup path

def replace (document : Document) (path : Path) (content : Content) : Document :=
  document.map fun (place, found) => if place = path then (place, content) else (place, found)

/-- Go down along keys and make the tables that are missing; `pointed` tells
whether the keys are those of an entry. Entries cannot reach into tables that
have headers. -/
def descend (pointed : Bool) : List Text → Document → Path → Option (Document × Path)
  | [], document, path => some (document, path)
  | key :: keys, document, path =>
      let next := path ++ [.key key]
      match document.at? next with
      | none =>
          descend pointed keys
            (document ++ [(next, if pointed then .dotted else .implied)]) next
      | some .implied => descend pointed keys document next
      | some .dotted => descend pointed keys document next
      | some .opened => if pointed then none else descend pointed keys document next
      | some (.tables count) =>
          if pointed then none
          else descend pointed keys document (next ++ [.element (count - 1)])
      | some (.value _) => none

end Document

namespace Draft

def addEntry (draft : Draft) (keys : List Text) (value : Value) : Option Draft := do
  let last ← keys.getLast?
  let (document, path) ← draft.document.descend true keys.dropLast draft.table
  let isOwn := match document.at? path with
    | some .dotted => true
    | _ => keys.length == 1
  let place := path ++ [.key last]
  match document.at? place with
  | none => if isOwn then some ⟨document ++ [(place, .value value)], draft.table⟩ else none
  | some _ => none

def openTable (draft : Draft) (keys : List Text) : Option Draft := do
  let last ← keys.getLast?
  let (document, path) ← draft.document.descend false keys.dropLast []
  let place := path ++ [.key last]
  match document.at? place with
  | none => some ⟨document ++ [(place, .opened)], place⟩
  | some .implied => some ⟨document.replace place .opened, place⟩
  | some _ => none

def openElement (draft : Draft) (keys : List Text) : Option Draft := do
  let last ← keys.getLast?
  let (document, path) ← draft.document.descend false keys.dropLast []
  let place := path ++ [.key last]
  match document.at? place with
  | none => some ⟨document ++ [(place, .tables 1)], place ++ [.element 0]⟩
  | some (.tables count) =>
      some ⟨document.replace place (.tables (count + 1)), place ++ [.element count]⟩
  | some _ => none

def add (draft : Draft) : Line → Option Draft
  | .entry keys value => draft.addEntry keys value
  | .header keys => draft.openTable keys
  | .element keys => draft.openElement keys

end Draft

/-- A line at the front of a text, and the text behind it. -/
def readLine (text : Text) : Option (Line × Text) :=
  match text with
  | '[' :: '[' :: rest => do
      let (keys, left) ← readKeys (rest.length + 1) (skipSpaces rest)
      match left with
      | ']' :: ']' :: more => some (.element keys, more)
      | _ => none
  | '[' :: rest => do
      let (keys, left) ← readKeys (rest.length + 1) (skipSpaces rest)
      match left with
      | ']' :: more => some (.header keys, more)
      | _ => none
  | _ => do
      let ((keys, value), left) ← readEntry (readValue (text.length + 1)) text
      some (.entry keys value, left)

/-- Whether a line can end in front of a text: at a line break, a comment, or
the end. -/
def endsLine : Text → Bool
  | [] => true
  | '\n' :: _ => true
  | '\r' :: '\n' :: _ => true
  | '#' :: _ => true
  | _ => false

/-- Add all lines of a text to a draft. -/
def readLines : Nat → Draft → Text → Option Document
  | 0, _, _ => none
  | fuel + 1, draft, text => do
      match ← skipGap false text with
      | [] => some draft.document
      | start => do
          let (line, rest) ← readLine start
          let next ← draft.add line
          if endsLine (skipSpaces rest) then readLines fuel next (skipSpaces rest) else none

/-- A text without the mark that may start a file. -/
def dropOrderMark : Text → Text
  | '\uFEFF' :: rest => rest
  | text => text

def read? (text : Text) : Option Document :=
  readLines (text.length + 1) ⟨[], []⟩ (dropOrderMark text)

end Deinstrument.Toml
