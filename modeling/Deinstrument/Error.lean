import Deinstrument.Text

/-!
# Errors

The causes for which a file or a configuration is refused, and their wording.
-/

namespace Deinstrument

/-- Why the contents of a file cannot be had as text. -/
inductive FileError
  | missing
  /-- Something below a file is asked for. -/
  | notDirectory
  | directory
  | notText
  deriving DecidableEq, Repr

def FileError.message : FileError → Text
  | .missing => "No such file or directory (os error 2)".toList
  | .notDirectory => "Not a directory (os error 20)".toList
  | .directory => "Is a directory (os error 21)".toList
  | .notText => "stream did not contain valid UTF-8".toList

/-- Why a configuration is refused. -/
inductive ConfigError
  /-- The file of the configuration cannot be read. -/
  | unreadable (cause : FileError)
  /-- The file of the configuration is not in the expected format. -/
  | malformed
  | noPackages
  | blankPackage (index : Nat)
  /-- An override is neither true nor false. -/
  | notBoolean (name : Text) (value : Text)
  deriving DecidableEq, Repr

def ConfigError.message : ConfigError → Text
  | .unreadable cause => "Failed to read config file: ".toList ++ cause.message
  | .malformed => "Failed to parse config file:".toList
  | .noPackages => "instrument_packages must name at least one import path".toList
  | .blankPackage index =>
      "instrument_packages[".toList ++ Text.ofNat index ++ "] is empty".toList
  | .notBoolean name value =>
      "Invalid ".toList ++ name ++ " value '".toList ++ value ++
        "'. Must be true or false".toList

/-- Why no result is given for a file. -/
inductive Error
  /-- The source does not parse. -/
  | parse (file : Text)
  /-- The result does not parse. -/
  | print (file : Text)
  | read (file : Text) (cause : FileError)
  | config (cause : ConfigError)
  deriving DecidableEq, Repr

def Error.message : Error → Text
  | .parse file => "error parsing content in ".toList ++ file ++ ": syntax error".toList
  | .print file => "error printing ".toList ++ file ++ ": syntax error".toList
  | .read file cause => "IO error on ".toList ++ file ++ ": ".toList ++ cause.message
  | .config cause => "Configuration error: ".toList ++ cause.message

/-- Why a command, or a command for one of its files, fails. -/
inductive Failure
  | noSuchFile (location : Text)
  | unreadable (location : Text) (cause : FileError)
  /-- The engine gives no result. -/
  | engine (cause : Error)
  deriving DecidableEq, Repr

def Failure.message : Failure → Text
  | .noSuchFile location => "no such file or directory: ".toList ++ location
  | .unreadable location cause =>
      "failed to read ".toList ++ location ++ ": ".toList ++ cause.message
  | .engine cause => cause.message

end Deinstrument
