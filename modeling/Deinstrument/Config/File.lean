import Deinstrument.Config
import Deinstrument.Toml.Document

/-!
# Configuration files

A configuration is saved as three entries. When one is loaded, entries that are
missing leave their settings as usual, and unknown ones are passed over.
-/

namespace Deinstrument.Config

def packagesKey : Text :=
  "instrument_packages".toList

def pruneKey : Text :=
  "prune_imports".toList

def validateKey : Text :=
  "validate_output".toList

/-- An entry on a line of its own. -/
def saveEntry (key value : Text) : Text :=
  key ++ " = ".toList ++ value ++ ['\n']

/-- The text of a configuration file. -/
def save (config : Config) : Text :=
  saveEntry packagesKey (Toml.writeStrings config.packages) ++
    saveEntry pruneKey (Toml.writeBoolean config.pruneImports) ++
    saveEntry validateKey (Toml.writeBoolean config.validateOutput)

def string? : Toml.Value → Option Text
  | .string text => some text
  | _ => none

def strings? : Toml.Value → Option (List Text)
  | .array items => items.mapM string?
  | _ => none

def flag? : Toml.Value → Option Bool
  | .boolean value => some value
  | _ => none

/-- A setting of a document: the usual one if there is no such key, and none at
all if something else stands there. -/
def setting {α : Type} (document : Toml.Document) (key : Text)
    (decode : Toml.Value → Option α) (usual : α) : Option α :=
  match document.at? [.key key] with
  | none => some usual
  | some (.value value) => decode value
  | some _ => none

/-- The settings of a document. -/
def ofDocument? (document : Toml.Document) : Option Config := do
  let packages ← setting document packagesKey strings? standard.packages
  let prune ← setting document pruneKey flag? standard.pruneImports
  let validate ← setting document validateKey flag? standard.validateOutput
  pure ⟨packages, prune, validate⟩

/-- The settings that the text of a configuration file gives. -/
def load (text : Text) : Except ConfigError Config :=
  match (Toml.read? text).bind ofDocument? with
  | some config => .ok config
  | none => .error .malformed

end Deinstrument.Config
