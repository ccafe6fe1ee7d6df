import Deinstrument.Batch.Print

/-!
# Command lines

The options and locations that the arguments of a command give. Options that
take no value may share one dash, and two dashes end the options.
-/

namespace Deinstrument.Command

inductive Flag
  | write
  | check
  | config
  | format
  | verbose
  | help
  | version
  deriving DecidableEq, Repr

namespace Flag

def all : List Flag :=
  [.write, .check, .config, .format, .verbose, .help, .version]

/-- The name of an option behind two dashes. -/
def name : Flag → Text
  | .write => "write".toList
  | .check => "check".toList
  | .config => "config".toList
  | .format => "format".toList
  | .verbose => "verbose".toList
  | .help => "help".toList
  | .version => "version".toList

/-- The letter of an option behind one dash. -/
def letter? : Flag → Option Char
  | .write => some 'w'
  | .check => none
  | .config => some 'c'
  | .format => none
  | .verbose => some 'v'
  | .help => some 'h'
  | .version => some 'V'

/-- Whether a value belongs to an option. -/
def takesValue : Flag → Bool
  | .config | .format => true
  | .write | .check | .verbose | .help | .version => false

def ofName? (name : Text) : Option Flag :=
  all.find? fun flag => flag.name = name

def ofLetter? (letter : Char) : Option Flag :=
  all.find? fun flag => flag.letter? = some letter

end Flag

/-- What is wrong with arguments. -/
inductive UsageError
  | unknown (argument : Text)
  | repeated (flag : Flag)
  | missingValue (flag : Flag)
  | badValue (flag : Flag) (value : Text)
  /-- A value is attached to an option that takes none. -/
  | needlessValue (flag : Flag) (value : Text)
  /-- Two options exclude each other. -/
  | conflict (flag other : Flag)
  | emptyLocation
  deriving DecidableEq, Repr

def UsageError.message : UsageError → Text
  | .unknown argument => "unexpected argument '".toList ++ argument ++ "' found".toList
  | .repeated flag =>
      "the argument '--".toList ++ flag.name ++ "' cannot be used multiple times".toList
  | .missingValue flag =>
      "a value is required for '--".toList ++ flag.name ++ "' but none was supplied".toList
  | .badValue flag value =>
      "invalid value '".toList ++ value ++ "' for '--".toList ++ flag.name ++ "'".toList
  | .needlessValue flag value =>
      "unexpected value '".toList ++ value ++ "' for '--".toList ++ flag.name ++ "' found".toList
  | .conflict flag other =>
      "the argument '--".toList ++ flag.name ++ "' cannot be used with '--".toList ++
        other.name ++ "'".toList
  | .emptyLocation => "a value is required for '[PATHS]...' but none was supplied".toList

/-- Why a command does not run. -/
inductive Stop
  | usage (cause : UsageError)
  | help
  | version
  deriving DecidableEq, Repr

/-- What the arguments of a command give. -/
structure Options where
  locations : List Text
  write : Bool
  check : Bool
  verbose : Bool
  config : Option Text
  format : Option Format
  deriving DecidableEq, Repr

namespace Options

/-- The options of a command without arguments. -/
def initial : Options :=
  ⟨[], false, false, false, none, none⟩

/-- What is done with results. -/
def mode (options : Options) : Mode :=
  if options.write then .write else if options.check then .check else .print

/-- Add an option that takes no value. -/
def set (options : Options) (flag : Flag) : Except Stop Options :=
  match flag with
  | .write =>
      if options.write then .error (.usage (.repeated flag))
      else .ok { options with write := true }
  | .check =>
      if options.check then .error (.usage (.repeated flag))
      else .ok { options with check := true }
  | .verbose =>
      if options.verbose then .error (.usage (.repeated flag))
      else .ok { options with verbose := true }
  | .help => .error .help
  | .version => .error .version
  | .config | .format => .error (.usage (.missingValue flag))

/-- The format that a word stands for. -/
def formatOf? (word : Text) : Option Format :=
  if word = "human".toList then some .human
  else if word = "json".toList then some .json
  else none

/-- Add an option with its value. -/
def give (options : Options) (flag : Flag) (value : Text) : Except Stop Options :=
  match flag with
  | .config =>
      if options.config.isSome then .error (.usage (.repeated flag))
      else if value.isEmpty then .error (.usage (.missingValue flag))
      else .ok { options with config := some value }
  | .format =>
      if options.format.isSome then .error (.usage (.repeated flag))
      else
        match formatOf? value with
        | some format => .ok { options with format := some format }
        | none => .error (.usage (.badValue flag value))
  | .write | .check | .verbose | .help | .version =>
      .error (.usage (.needlessValue flag value))

def addLocation (options : Options) (location : Text) : Except Stop Options :=
  if location.isEmpty then .error (.usage .emptyLocation)
  else .ok { options with locations := options.locations ++ [location] }

/-- Add the options of an argument with one dash, letter by letter. The second
result is an option whose value is still to come. -/
def addLetters (options : Options) : Text → Except Stop (Options × Option Flag)
  | [] => .ok (options, none)
  | letter :: rest =>
      match Flag.ofLetter? letter with
      | none => .error (.usage (.unknown ['-', letter]))
      | some flag =>
          if flag.takesValue then
            match rest with
            | [] => .ok (options, some flag)
            | '=' :: value => (options.give flag value).map fun next => (next, none)
            | value => (options.give flag value).map fun next => (next, none)
          else
            match options.set flag with
            | .error cause => .error cause
            | .ok next => addLetters next rest

/-- Add the option of an argument with two dashes. -/
def addName (options : Options) (argument : Text) : Except Stop (Options × Option Flag) :=
  match Flag.ofName? (argument.takeWhile (· != '=')) with
  | none => .error (.usage (.unknown ('-' :: '-' :: argument)))
  | some flag =>
      match argument.dropWhile (· != '=') with
      | _ :: value => (options.give flag value).map fun next => (next, none)
      | [] =>
          if flag.takesValue then .ok (options, some flag)
          else (options.set flag).map fun next => (next, none)

def add (options : Options) (argument : Text) : Except Stop (Options × Option Flag) :=
  match argument with
  | '-' :: '-' :: rest => options.addName rest
  | '-' :: letter :: rest => options.addLetters (letter :: rest)
  | _ => (options.addLocation argument).map fun next => (next, none)

/-- Whether an argument can be the value of the option in front of it. -/
def isValue (argument : Text) : Bool :=
  argument.head? != some '-' || argument == ['-']

/-- Add all arguments in order; `pending` is an option that waits for its
value. -/
def addAll (options : Options) (pending : Option Flag) : List Text → Except Stop Options
  | [] =>
      match pending with
      | some flag => .error (.usage (.missingValue flag))
      | none => .ok options
  | argument :: rest =>
      match pending with
      | some flag =>
          if isValue argument then
            match options.give flag argument with
            | .error cause => .error cause
            | .ok next => addAll next none rest
          else .error (.usage (.missingValue flag))
      | none =>
          if argument = ['-', '-'] then rest.foldlM addLocation options
          else
            match options.add argument with
            | .error cause => .error cause
            | .ok (next, waiting) => addAll next waiting rest

/-- The options that arguments give. -/
def parse (arguments : List Text) : Except Stop Options :=
  match initial.addAll none arguments with
  | .error cause => .error cause
  | .ok options =>
      if options.write && options.check then .error (.usage (.conflict .write .check))
      else .ok options

end Options

end Deinstrument.Command
