import Deinstrument.Go.Lexeme
import Deinstrument.Go.Node

/-!
# Forms of source text

A grammar is data: each phrase of the language has a form, and one function
reads a source by any form. Choices are ordered, and a choice once made is
kept. Reading only ever moves text from the rest of the source into the row
under construction.
-/

namespace Deinstrument.Go

/-- The phrases of the language that forms refer to by name. -/
inductive Phrase
  | topLevel
  | statement
  | statements
  | simple
  | simpleTail
  | block
  | ifStatement
  | expression
  | conjunction
  | comparison
  | sum
  | product
  | unary
  | primary
  | suffix
  | operand
  | expressionList
  | argumentList
  | literalValue
  | literalElement
  | string
  | type
  | simpleType
  | namedType
  | markedGeneric
  | typeArguments
  | typeElem
  | typeParameterList
  | parameterList
  | result
  | fieldDeclaration
  | constSpec
  | varSpec
  | typeSpec
  | importSpec
  deriving DecidableEq, Repr

/-- What the surroundings of a phrase decide about reading it. -/
structure Context where
  /-- A line break ends the phrase wherever the phrase is complete. -/
  lineEnds : Bool
  /-- A name followed by an opening brace starts a literal. -/
  literals : Bool
  /-- The operators of statements are tokens here. -/
  statementHead : Bool
  /-- The word `type` in an assertion belongs to a switch here. -/
  typeSwitch : Bool
  deriving DecidableEq, Repr

/-- The ways in which a construct changes the surroundings of its parts. -/
inductive Shift
  | body
  | brackets
  | header
  | switchHeader
  | head
  | tail
  | free
  deriving DecidableEq, Repr

/-- The surroundings of a part, from those of the whole. -/
def Context.shift (context : Context) : Shift → Context
  | .body => ⟨true, true, false, false⟩
  | .brackets => ⟨false, true, false, false⟩
  | .header => ⟨false, false, false, false⟩
  | .switchHeader => ⟨false, false, false, true⟩
  | .head => { context with statementHead := true }
  | .tail => { context with statementHead := false }
  | .free => { context with lineEnds := false }

/-- The shapes that source text can have. -/
inductive Form
  | empty
  /-- Blanks and comments, as far as they go. -/
  | skip
  /-- A given text, unless one of the longer texts stands there. -/
  | symbol (text : Text) (longer : List Text)
  /-- A given word, which makes no node. -/
  | keyword (word : Text)
  /-- A lexeme, which becomes a leaf. -/
  | leaf (kind : Kind) (lexeme : Lexeme)
  /-- The longest operator that stands here, if it is one of the choices. -/
  | operator (choices : List Text)
  /-- Nothing, provided that no line break ends the phrase here. -/
  | sameLine
  /-- A line break, a semicolon or the end of the source. -/
  | terminator
  /-- Nothing, provided that literals may start here. -/
  | literalsAllowed
  /-- Nothing, provided that no type switch is under way. -/
  | outsideSwitch
  /-- Nothing, provided that the form follows. -/
  | ahead (form : Form)
  /-- Nothing, provided that the form does not follow. -/
  | notAhead (form : Form)
  | seq (first second : Form)
  | alt (first second : Form)
  /-- A form as often as it follows. -/
  | many (form : Form)
  /-- A form read into a row of its own, which then joins the outer row. -/
  | frame (form : Form)
  /-- The row read so far becomes a single node. -/
  | wrap (kind : Kind)
  | within (shift : Shift) (form : Form)
  | phrase (phrase : Phrase)

instance : AndThen Form := ⟨fun first second => .seq first (second ())⟩

instance : OrElse Form := ⟨fun first second => .alt first (second ())⟩

/-- A reading in progress: the row under construction, latest item first, the
line on which that row starts, the current line, and the rest of the source. -/
structure Reading where
  start : Nat
  lead : Text
  items : List (Spaced Node)
  line : Nat
  rest : Text

namespace Reading

/-- The reading of a whole source before its first step. -/
def ofSource (source : Text) : Reading :=
  ⟨1, [], [], 1, source⟩

def text (reading : Reading) : Text :=
  reading.lead ++ Node.textItems reading.items.reverse

/-- Text joins the gap at the end of the row. -/
def pushText (reading : Reading) (added : Text) : Reading :=
  match reading.items with
  | [] => { reading with lead := reading.lead ++ added }
  | last :: earlier =>
      { reading with items := ⟨last.value, last.gap ++ added⟩ :: earlier }

/-- The next characters of the source join the row as text. -/
def consume (reading : Reading) (length : Nat) : Reading :=
  let taken := reading.rest.take length
  let next := reading.pushText taken
  { next with line := reading.line + Text.breaks taken, rest := reading.rest.drop length }

/-- The next characters of the source join the row as a leaf. -/
def consumeLeaf (reading : Reading) (kind : Kind) (length : Nat) : Reading :=
  let taken := reading.rest.take length
  { reading with
    items := ⟨.mk kind reading.line (.ofText taken), []⟩ :: reading.items
    line := reading.line + Text.breaks taken
    rest := reading.rest.drop length }

/-- The row under construction becomes one node. -/
def wrap (reading : Reading) (kind : Kind) : Reading :=
  { reading with
    lead := []
    items := [⟨.mk kind reading.start ⟨reading.lead, reading.items.reverse⟩, []⟩] }

/-- A reading that starts a row of its own. -/
def inner (reading : Reading) : Reading :=
  ⟨reading.line, [], [], reading.line, reading.rest⟩

/-- The row of an inner reading joins the outer row. -/
def join (outer inner : Reading) : Reading :=
  let next := outer.pushText inner.lead
  { next with items := inner.items ++ next.items, line := inner.line, rest := inner.rest }

end Reading

def expressionOperators : List Text :=
  ["*", "/", "%", "<<", ">>", "&", "&^", "+", "-", "|", "^", "==", "!=", "<", "<=", ">", ">=",
    "&&", "||"].map String.toList

def assignmentOperators : List Text :=
  ["*=", "/=", "%=", "<<=", ">>=", "&=", "&^=", "+=", "-=", "|=", "^=", "="].map String.toList

/-- The operators that can follow the first expression of a statement. -/
def statementOperators : List Text :=
  ["++", "--", "<-", ":="].map String.toList ++ assignmentOperators

/-- The longest of several texts at the front of a text. -/
def longestOf (choices : List Text) (text : Text) : Option Text :=
  choices.foldl (fun best choice =>
    if choice.isPrefixOf text then
      match best with
      | some found => if found.length < choice.length then some choice else some found
      | none => some choice
    else best) none

def operatorAt (context : Context) (text : Text) : Option Text :=
  longestOf (if context.statementHead then expressionOperators ++ statementOperators
    else expressionOperators) text

/-- Read a source by a form, in at most `fuel` nested steps. -/
def read (rules : Phrase → Form) : Nat → Context → Form → Reading → Option Reading
  | 0, _, _, _ => none
  | fuel + 1, context, form, reading =>
    match form with
    | .empty => some reading
    | .skip => some (reading.consume (blankLength reading.rest))
    | .symbol text longer =>
        if text.isPrefixOf reading.rest && !longer.any (·.isPrefixOf reading.rest) then
          some (reading.consume text.length)
        else none
    | .keyword word =>
        match (Lexeme.exactly word).length? reading.rest with
        | some length => some (reading.consume length)
        | none => none
    | .leaf kind lexeme =>
        match lexeme.length? reading.rest with
        | some length => some (reading.consumeLeaf kind length)
        | none => none
    | .operator choices =>
        let skipped := reading.consume (blankLength reading.rest)
        match operatorAt context skipped.rest with
        | some found =>
            if choices.contains found then some (skipped.consume found.length) else none
        | none => none
    | .sameLine => if context.lineEnds && breakAhead reading.rest then none else some reading
    | .terminator =>
        let length := inlineLength reading.rest
        match reading.rest.drop length with
        | [] => some (reading.consume length)
        | next :: _ =>
            if next == '\n' || next == ';' then some (reading.consume (length + 1)) else none
    | .literalsAllowed => if context.literals then some reading else none
    | .outsideSwitch => if context.typeSwitch then none else some reading
    | .ahead inner =>
        match read rules fuel context inner reading with
        | some _ => some reading
        | none => none
    | .notAhead inner =>
        match read rules fuel context inner reading with
        | some _ => none
        | none => some reading
    | .seq first second =>
        match read rules fuel context first reading with
        | some next => read rules fuel context second next
        | none => none
    | .alt first second =>
        match read rules fuel context first reading with
        | some next => some next
        | none => read rules fuel context second reading
    | .many item =>
        match read rules fuel context item reading with
        | some next => read rules fuel context (.many item) next
        | none => some reading
    | .frame inner =>
        match read rules fuel context inner reading.inner with
        | some next => some (reading.join next)
        | none => none
    | .wrap kind => some (reading.wrap kind)
    | .within shift inner => read rules fuel (context.shift shift) inner reading
    | .phrase phrase => read rules fuel context (rules phrase) reading

end Deinstrument.Go
