import Deinstrument.Error

/-!
# Configuration

Which packages count as instrumentation, and what is done to a file once its
instrumentation is gone. Variables of the environment can override two of the
three settings.
-/

namespace Deinstrument

structure Config where
  /-- The paths of the instrumentation packages. -/
  packages : List Text
  /-- Whether imports of these packages go once nothing refers to them. -/
  pruneImports : Bool
  /-- Whether a result that does not parse is an error. -/
  validateOutput : Bool
  deriving DecidableEq, Repr

namespace Config

/-- The path of the package that counts as instrumentation by default. -/
def defaultPackage : Text :=
  "github.com/datadog/orchestrion/instrument".toList

/-- The settings that apply when nothing else is given. -/
def standard : Config :=
  ⟨[defaultPackage], true, true⟩

/-- The name of the file that is looked up for a configuration. -/
def fileName : Text :=
  "unweave.toml".toList

/-- The variable that overrides the packages. -/
def packagesVariable : Text :=
  "UNWEAVE_INSTRUMENT_PACKAGES".toList

/-- The variable that overrides whether imports are pruned. -/
def pruneVariable : Text :=
  "UNWEAVE_PRUNE_IMPORTS".toList

/-- The position of the first blank path. -/
def blankPosition? (packages : List Text) : Option Nat :=
  packages.findIdx? fun path => (Text.trim path).isEmpty

/-- Whether an engine can run with the settings: there must be a package, and
no path may be blank. -/
def validate (config : Config) : Except ConfigError Unit :=
  if config.packages.isEmpty then .error .noPackages
  else
    match blankPosition? config.packages with
    | some position => .error (.blankPackage position)
    | none => .ok ()

/-- The paths of a list in which commas separate them. -/
def splitPackages (list : Text) : List Text :=
  ((Text.splitOn ',' list).map Text.trim).filter fun path => !path.isEmpty

/-- The lower case of the letters of ASCII. -/
def lower (character : Char) : Char :=
  if 'A' ≤ character && character ≤ 'Z' then Char.ofNat (character.toNat + 32) else character

/-- The truth value that a word stands for. -/
def boolean? (word : Text) : Option Bool :=
  let plain := (Text.trim word).map lower
  if ["1", "true", "yes", "on"].any fun accepted => plain = accepted.toList then some true
  else if ["0", "false", "no", "off"].any fun accepted => plain = accepted.toList then some false
  else none

/-- The settings with the packages that a variable gives. -/
def overridePackages (value : Option Text) (config : Config) : Config :=
  match value with
  | some list => { config with packages := splitPackages list }
  | none => config

/-- The settings with overrides from the environment. If an override is
refused, those before it have taken effect. -/
def override (lookup : Text → Option Text) (config : Config) : Config × Except ConfigError Unit :=
  let first := overridePackages (lookup packagesVariable) config
  match lookup pruneVariable with
  | none => (first, .ok ())
  | some value =>
      match boolean? value with
      | some prune => ({ first with pruneImports := prune }, .ok ())
      | none => (first, .error (.notBoolean pruneVariable value))

end Config

end Deinstrument
