import Scratchpad.Folder
import Scratchpad.Settings.Decode

/-! Settings from a file. -/
namespace Scratchpad

/-- Why settings cannot be loaded; a path stands as it is shown. -/
inductive LoadError where
  | missing (path : String)
  | unreadable (path : String) (f : FileFault)
  | unusable (path : String) (e : SettingsError)
deriving Repr

def LoadError.message : LoadError → String
  | .missing path => s!"Config file {path} does not exist"
  | .unreadable path _ => s!"Failed to read config {path}"
  | .unusable path _ => s!"Failed to parse config {path}"

/-- What lies behind an error, if it is known. -/
def LoadError.cause? : LoadError → Option String
  | .missing _ | .unusable _ .form => none
  | .unreadable _ f => some f.message
  | .unusable _ (.fault f) => some f.message

/-- The settings file of a user, from the home folder on. -/
def Settings.homePath : String := ".config/livepad/config.toml"

/-- A file, and the path by which it is shown. -/
structure ShownPath where
  path : String
  shown : String
deriving Repr

/-- A file that was named must be there; without the file of the user the defaults hold. -/
def Settings.load (d : Folder) (named : Option ShownPath) (own : ShownPath) :
    Except LoadError Settings :=
  let file := named.getD own
  if !d.isThere [] file.path then
    if named.isSome then .error (.missing file.shown) else .ok .withBuiltinLanguages
  else
    match d.read [] file.path with
    | .error f => .error (.unreadable file.shown f)
    | .ok text =>
      match Settings.read text with
      | .error e => .error (.unusable file.shown e)
      | .ok s => .ok s

end Scratchpad
