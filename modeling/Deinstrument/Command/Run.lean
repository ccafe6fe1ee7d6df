import Deinstrument.Command
import Deinstrument.Config.File
import Deinstrument.FileTree.Collect

/-!
# Running commands

What a command prints, which files it writes and with which code it ends, as a
function of its arguments and of what it finds around it. Without locations a
command is a filter: it reads its input and prints the result.
-/

namespace Deinstrument.Command

/-- What a command finds around it. -/
structure Surroundings where
  tree : FileTree
  /-- The directory in which the command runs. -/
  here : Place
  environment : List (Text × Text)
  input : Contents
  deriving Repr

/-- What a command does. -/
structure Result where
  code : Nat
  output : Text
  /-- The files written, with their new texts. -/
  written : List (Place × Text)
  /-- The reason why the command fails as a whole. -/
  failure : Option Failure
  deriving DecidableEq, Repr

def name : Text :=
  "unweave".toList

def version : Text :=
  "0.1.0".toList

def help : Text :=
  Text.join ['\n'] ([
    "Remove orchestrion instrumentation from Go source files",
    "",
    "Usage: unweave [OPTIONS] [PATHS]...",
    "",
    "Arguments:",
    "  [PATHS]...  Files or directories to process; reads stdin when omitted",
    "",
    "Options:",
    "  -w, --write            Rewrite changed files in place",
    "      --check            Exit with status 1 if any file would change",
    "  -c, --config <CONFIG>  Configuration file (defaults to ./unweave.toml when present)",
    "      --format <FORMAT>  Output format [default: human] [possible values: human, json]",
    "  -v, --verbose          Enable verbose logging",
    "  -h, --help             Print help (see more with '--help')",
    "  -V, --version          Print version",
    ""].map String.toList)

/-- The name that stands for the input in reports. -/
def inputName : Text :=
  "<stdin>".toList

/-- A command that prints something and ends well. -/
def Result.printed (output : Text) : Result :=
  ⟨0, output, [], none⟩

/-- A command that fails as a whole. -/
def Result.failed (cause : Failure) : Result :=
  ⟨1, [], [], some cause⟩

/-- The settings with overrides, if they are valid. -/
def settle (environment : List (Text × Text)) (config : Config) : Except ConfigError Config :=
  match config.override fun name => environment.lookup name with
  | (_, .error cause) => .error cause
  | (overridden, .ok ()) =>
      match overridden.validate with
      | .error cause => .error cause
      | .ok () => .ok overridden

/-- The settings of the configuration file at a location. -/
def configAt (around : Surroundings) (location : Text) : Except ConfigError Config :=
  match around.tree.read around.here location with
  | .error cause => .error (.unreadable cause)
  | .ok text =>
      match Config.load text with
      | .error cause => .error cause
      | .ok config => settle around.environment config

/-- The settings of a command: those of the given file, else those of the usual
file if there is one, else the usual settings. -/
def configFor (around : Surroundings) (options : Options) : Except ConfigError Config :=
  match options.config with
  | some location => configAt around location
  | none =>
      if around.tree.isFile (around.here ++ [Config.fileName]) then
        configAt around Config.fileName
      else settle around.environment .standard

/-- Process the input. -/
def filter (engine : Engine) (input : Contents) : Result :=
  match input with
  | .binary => .failed (.engine (.read inputName .notText))
  | .text source =>
      match engine.run inputName source with
      | .error cause => .failed (.engine cause)
      | .ok output => .printed output.source

/-- Process the files that the locations stand for. -/
def batch (engine : Engine) (around : Surroundings) (options : Options) : Result :=
  match around.tree.collect around.here options.locations with
  | .error cause => .failed cause
  | .ok locations =>
      let outcomes := Batch.process engine around.tree around.here locations
      ⟨Batch.exitCode options.mode (Batch.summary outcomes),
        Batch.print options.mode (options.format.getD .human) outcomes,
        Batch.updates options.mode around.tree around.here outcomes, none⟩

def runOptions (around : Surroundings) (options : Options) : Result :=
  match configFor around options with
  | .error cause => .failed (.engine (.config cause))
  | .ok config =>
      match Engine.build config .usual with
      | .error cause => .failed (.engine cause)
      | .ok engine =>
          if options.locations.isEmpty then filter engine around.input
          else batch engine around options

def run (around : Surroundings) (arguments : List Text) : Result :=
  match Options.parse arguments with
  | .ok options => runOptions around options
  | .error .help => .printed help
  | .error .version => .printed (name ++ ' ' :: version ++ ['\n'])
  | .error (.usage _) => ⟨2, [], [], none⟩

end Deinstrument.Command
