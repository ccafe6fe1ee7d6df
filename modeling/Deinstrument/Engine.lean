import Deinstrument.Code.Build
import Deinstrument.Config
import Deinstrument.Import.Prune
import Deinstrument.Region
import Deinstrument.Report
import Deinstrument.Rule.Apply
import Deinstrument.Span

/-!
# The engine

An engine takes the instrumentation out of one file: regions and then spans
leave the body of every function, and after that the bodies of the function
values that its statements hold directly. Unused imports go last. Rules only
ever see the statements of removed regions.
-/

namespace Deinstrument

/-- The steps that a file goes through. -/
inductive Stage
  | parsed
  | regionsRemoved
  | spansRemoved
  | nestedWalked
  | serialized
  deriving DecidableEq, Repr

namespace Stage

def all : List Stage :=
  [.parsed, .regionsRemoved, .spansRemoved, .nestedWalked, .serialized]

def name : Stage → String
  | .parsed => "parsed"
  | .regionsRemoved => "regions-removed"
  | .spansRemoved => "spans-removed"
  | .nestedWalked => "nested-walked"
  | .serialized => "serialized"

end Stage

/-- The settings and the rules with which files are processed. -/
structure Engine where
  config : Config
  unwrapRules : List UnwrapRule
  statementRules : List StatementRule
  /-- The tree of a text that does not parse, with what can be read of it. -/
  recover : Text → Go.Node

/-- The rules of an engine in place of the usual ones: replacements for them,
and rules that follow. -/
structure RuleChoice where
  unwrapRules : Option (List UnwrapRule)
  middlewareRules : Option (List MiddlewareRule)
  moreUnwrapRules : List UnwrapRule
  moreMiddlewareRules : List MiddlewareRule

def RuleChoice.usual : RuleChoice :=
  ⟨none, none, [], []⟩

structure Output where
  source : Text
  report : Report
  deriving Repr, DecidableEq

namespace Engine

def ofConfig (config : Config) : Engine :=
  ⟨config, UnwrapRule.all, MiddlewareRule.all.map MiddlewareRule.toStatementRule, Go.Node.unread⟩

/-- An engine with chosen rules, provided that its settings are valid. -/
def build (config : Config) (rules : RuleChoice) : Except Error Engine :=
  match config.validate with
  | .error cause => .error (.config cause)
  | .ok () =>
      let middlewareRules :=
        rules.middlewareRules.getD MiddlewareRule.all ++ rules.moreMiddlewareRules
      .ok ⟨config, rules.unwrapRules.getD UnwrapRule.all ++ rules.moreUnwrapRules,
        middlewareRules.map MiddlewareRule.toStatementRule, Go.Node.unread⟩

/-! ## Blocks -/

/-- What was removed from a block. -/
structure Removal where
  regions : Nat
  spans : Nat
  tags : Nat
  unwrapped : List UnwrapRule
  dropped : List Text

/-- The rules that fit the statements of a removed region: unwrap rules are
applied to what statement rules leave. -/
def regionRules (engine : Engine) (scope : Scope) (region : List (Stmt Action)) :
    List UnwrapRule × List Text :=
  let (left, dropped) := StatementRule.drop scope engine.statementRules region
  ((UnwrapRule.apply scope engine.unwrapRules left).2, dropped)

/-- Remove the regions and then the spans of a block. -/
def stripBlock (engine : Engine) (scope : Scope) (block : Block Action) :
    Block Action × Removal :=
  let (withoutRegions, regions) := Region.remove block
  let (stripped, counts) := Span.remove withoutRegions
  let fitting := regions.map (engine.regionRules scope)
  (stripped, ⟨regions.length, counts.spans, counts.tags,
    fitting.flatMap (·.1), fitting.flatMap (·.2)⟩)

/-! ## Function values -/

def onFunction (change : Block Action → Block Action × Removal) :
    Expr → Expr × List Removal
  | .function head body =>
      let (changed, removal) := change body
      (.function head changed, [removal])
  | expr => (expr, [])

def onElement (change : Block Action → Block Action × Removal) :
    Expr → Expr × List Removal
  | .keyed lead key colon value tail =>
      let (changed, removals) := onFunction change value
      (.keyed lead key colon changed tail, removals)
  | expr => (expr, [])

/-- Apply a change to every item and collect what was removed. -/
def onItems (change : Expr → Expr × List Removal) :
    List (Spaced Expr) → List (Spaced Expr) × List Removal
  | [] => ([], [])
  | ⟨value, gap⟩ :: rest =>
      let (changed, removals) := change value
      let (later, laterRemovals) := onItems change rest
      (⟨changed, gap⟩ :: later, removals ++ laterRemovals)

/-- Change an assigned function value, or those of the elements of an assigned
literal. -/
def onValue (change : Block Action → Block Action × Removal) : Expr → Expr × List Removal
  | .literal lead type ⟨gap, items⟩ =>
      let (changed, removals) := onItems (onElement change) items
      (.literal lead type ⟨gap, changed⟩, removals)
  | .elements ⟨gap, items⟩ =>
      let (changed, removals) := onItems (onElement change) items
      (.elements ⟨gap, changed⟩, removals)
  | expr => onFunction change expr

/-- Change the function values that a statement holds directly: those that it
assigns, and one that it calls. -/
def onClosures (change : Block Action → Block Action × Removal) :
    Action → Action × List Removal
  | .assignment targets ⟨gap, values⟩ =>
      let (changed, removals) := onItems (onValue change) values
      (.assignment targets ⟨gap, changed⟩, removals)
  | .expression lead (.call start callee row) tail =>
      let (changed, removals) := onFunction change callee
      (.expression lead (.call start changed row) tail, removals)
  | action => (action, [])

/-- Change the function values that statements hold directly. -/
def onStmts (change : Block Action → Block Action × Removal) :
    List (Stmt Action) → List (Stmt Action) × List Removal
  | [] => ([], [])
  | stmt :: rest =>
      let (changed, removals) := onClosures change stmt.action
      let (later, laterRemovals) := onStmts change rest
      ({ stmt with action := changed } :: later, removals ++ laterRemovals)

/-- Strip the body of a function and then the function values in it. The first
removal is that of the body. -/
def processBody (engine : Engine) (scope : Scope) (body : Block Action) :
    Block Action × Removal × List Removal :=
  let (stripped, removal) := engine.stripBlock scope body
  let (stmts, removals) := onStmts (engine.stripBlock scope) stripped.stmts
  ({ stripped with stmts := stmts }, removal, removals)

/-! ## Files -/

/-- Add what was removed from a block to a report. -/
def addRemoval (report : Report) (removal : Removal) : Report :=
  { report with
    regions := report.regions + removal.regions
    spans := report.spans + removal.spans
    tags := report.tags + removal.tags
    unwrapped := report.unwrapped.merge (UnwrapRule.tally removal.unwrapped)
    dropped := report.dropped.merge (Tally.ofNames removal.dropped) }

def processItem (engine : Engine) (scope : Scope) (report : Report) : Item → Item × Report
  | .text source => (.text source, report)
  | .function decl =>
      match decl.body with
      | none => (.function decl, report)
      | some body =>
          let (processed, removal, nested) := engine.processBody scope body
          let counted := (removal :: nested).foldl addRemoval report
          (.function { decl with body := some processed },
            { counted with
              closures := counted.closures + nested.length
              markersLeft := counted.markersLeft + processed.markerCount })

/-- Process the items of a file in order and add to the report. -/
def processItems (engine : Engine) (scope : Scope) (report : Report) :
    List Item → List Item × Report
  | [] => ([], report)
  | item :: rest =>
      let (processed, next) := engine.processItem scope report item
      let (later, final) := engine.processItems scope next rest
      (processed :: later, final)

/-- Prune the imports of a printed file if something was removed from it, and
check the result, as the settings ask. -/
def finish (engine : Engine) (printed : Text) (report : Report) : Except Error Output :=
  let (removed, pruned) :=
    if engine.config.pruneImports && !report.isClean then
      Import.prune printed engine.config.packages engine.recover
    else ([], printed)
  if engine.config.validateOutput && (Go.parse? pruned).isNone then .error (.print report.file)
  else .ok ⟨pruned, { report with pruned := removed }⟩

/-- Take the instrumentation out of a file. -/
def run (engine : Engine) (file source : Text) : Except Error Output :=
  match Go.parse? source with
  | none => .error (.parse file)
  | some root =>
      let scope : Scope := ⟨Import.ofRoot root, engine.config.packages⟩
      let (items, report) := engine.processItems scope (.ofFile file) (Code.items root)
      engine.finish (Code.print items) report

/-- Take the instrumentation out of a file given by its bytes. -/
def runBytes (engine : Engine) (file : Text) (bytes : ByteArray) : Except Error Output :=
  match String.fromUTF8? bytes with
  | none => .error (.read file .notText)
  | some source => engine.run file source.toList

/-! ## Descriptions -/

/-- A text between double quotes; quotes and backslashes in it are escaped. -/
def quoted (text : Text) : Text :=
  ['"'] ++ text.flatMap (fun character =>
    if character == '"' || character == '\\' then ['\\', character] else [character]) ++ ['"']

/-- A list of quoted texts between square brackets. -/
def quotedList (texts : List Text) : Text :=
  ['['] ++ Text.join ", ".toList (texts.map quoted) ++ [']']

def word (value : Bool) : Text :=
  (if value then "true" else "false").toList

/-- The settings and the rules of an engine in one line. -/
def describe (engine : Engine) : Text :=
  "Uninstrumenter \x7b config: EngineConfig \x7b instrument_packages: ".toList ++
    quotedList engine.config.packages ++ ", prune_imports: ".toList ++
    word engine.config.pruneImports ++ ", validate_output: ".toList ++
    word engine.config.validateOutput ++ " \x7d, unwrap_rules: ".toList ++
    quotedList (engine.unwrapRules.map fun rule => rule.name.toList) ++
    ", statement_rules: ".toList ++ quotedList (engine.statementRules.map (·.name)) ++
    " \x7d".toList

end Engine

end Deinstrument
