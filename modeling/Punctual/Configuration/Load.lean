import Punctual.Configuration.Settings
import Punctual.Files.Tree
import Punctual.Toml.Document

/-!
# Loading a configuration

A configuration is gathered from a file, if one is given, and from environment variables, which
come after the file. The extension of the file tells its format. A variable counts if its name
starts with `DEADLINE_`, in whatever case; two underscores in the rest of the name stand between
the parts of a key.
-/

namespace Punctual.Configuration

open Json (Value)

/-- Why no configuration could be loaded. -/
inductive LoadError
  /-- There is no file of the given name. -/
  | missingFile (path : String)
  /-- The file has no known format, or its text does not follow it. -/
  | unreadable
  /-- The settings do not have the shape of a configuration. -/
  | wrongShape

/-! ## Environment variables -/

/-- The first letters of all variables that count, in lower case. -/
def variableStem : String := "deadline_"

/-- The value of a variable: a truth value, an integer, a floating point number, or a text. -/
def variableValue (s : String) : Value :=
  match Settings.lowered s with
  | "true" => .bool true
  | "false" => .bool false
  | _ =>
    match (Text.int? s.toList).filter fun n => decide (Time.Fits n) with
    | some n => .int n
    | none =>
      match Number.float? s.toList with
      | some x => .float x
      | none => .text s

def variableKey? (name : String) : Option String :=
  (Text.dropStart? variableStem.toList (Settings.lowered name).toList).map fun rest =>
    Text.replace (.ofList rest) "__" "."

def ofVariables (environment : List (String × String)) : List (String × Value) :=
  environment.filterMap fun (name, v) => (variableKey? name).map fun key => (key, variableValue v)

/-! ## Files -/

/-- The formats of configuration files. -/
inductive FileFormat
  | json
  | toml

def FileFormat.ofExtension? : String → Option FileFormat
  | "json" => some .json
  | "toml" => some .toml
  | _ => none

/-- The settings that a text of a format describes. -/
def FileFormat.read? (f : FileFormat) (text : String) : Option (List (String × Value)) :=
  match f with
  | .toml => Toml.parse text
  | .json =>
    match Json.parse .any text with
    | .ok (.object ms) => some ms
    | _ => none

/-- The mark that may stand in front of a text. -/
def byteOrderMark : Char := '\uFEFF'

/-- The text of a file; what is no UTF-8 is replaced. -/
def settingsText (bytes : ByteArray) : String :=
  let s := Text.decodeLossy bytes
  match s.toList with
  | c :: cs => if c = byteOrderMark then .ofList cs else s
  | [] => s

/-- The file that is meant by a path: the file itself, or the one whose name has an extension
more. -/
def fileMeant? (tree : Tree) (path : String) : Option String :=
  (path :: ["toml", "json"].filterMap (Path.withExtension? path)).find? tree.isFile

def ofFile (tree : Tree) (path : String) : Except LoadError (List (String × Value)) :=
  if !tree.leadsSomewhere path then .error (.missingFile path)
  else
    let settings? := do
      let file ← fileMeant? tree path
      let format ← FileFormat.ofExtension? (Path.extension file)
      let bytes ← (tree.readBytes file).toOption
      format.read? (settingsText bytes)
    match settings? with
    | some settings => .ok settings
    | none => .error .unreadable

/-- The configuration of a file and environment variables. -/
def load (tree : Tree) (environment : List (String × String)) (path : Option String) :
    Except LoadError Configuration := do
  let settings ← match path with
    | some path => ofFile tree path
    | none => .ok []
  let value := Settings.add (Settings.add (.object []) settings) (ofVariables environment)
  match Settings.configuration? value with
  | some c => return c
  | none => throw .wrongShape

/-- The text that reports the error, if it has one of its own. -/
def LoadError.message? : LoadError → Option String
  | .missingFile path => some ("Specified configuration file '" ++ path ++ "' does not exist.")
  | .unreadable => none
  | .wrongShape => some "Failed to parse configuration"

end Punctual.Configuration
