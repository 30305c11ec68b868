import Punctual.Files.Error
import Punctual.Json.Value
import Punctual.Model.Section

/-!
# Declarations of variables

A declaration gives a variable a type. A context holds the variables that are declared so far, in
one table for each kind; a variable is declared once, and a later declaration is dropped, with a
warning if its type differs.
-/

namespace Punctual

/-- Why models could not be combined. -/
inductive CombineError
  | unknownPlugin (name : String)
  | unknownOption (option : String)
  | invalidOption (plugin option : String)
  | malformedDeclaration (declaration : String)
  | externalFailed (command : String) (status : ExitStatus) (errors : String)
  | io (path : String) (e : IoError)
  deriving DecidableEq, Repr

/-- The text that reports the error. -/
def CombineError.message : CombineError → String
  | .unknownPlugin name => "Unknown plugin '" ++ name ++ "'"
  | .unknownOption option =>
    "Plugin option '" ++ option ++ "' is not accepted by any selected plugin"
  | .invalidOption plugin option => "Invalid option '" ++ option ++ "' for plugin " ++ plugin
  | .malformedDeclaration d =>
    "Malformed variable declaration '" ++ d ++ "', expected 'name : type'"
  | .externalFailed command status errors =>
    "Combine command '" ++ command ++ "' failed (" ++ status.text ++ "): " ++ Text.trim errors
  | .io path e => "Failed to access '" ++ path ++ "': " ++ e.message

/-- A character of a variable's name. -/
def isVariableChar (c : Char) : Bool :=
  c.isAlphanum || c == '_' || c == '.' || c == '$' || c == '#' || c == '[' || c == ']'

/-- The name and the type that a declaration gives, with or without semicolons behind it. -/
def parseDeclaration (declaration : String) : Except CombineError (String × String) :=
  let trimmed := Text.dropEndWhile (· == ';') (Text.trim declaration).toList
  let d := Text.trim (.ofList trimmed)
  match Text.splitOnce? d ':' with
  | none => .error (.malformedDeclaration d)
  | some (name, type) =>
    let name := Text.trim name
    let type := Text.trim type
    if name ≠ "" ∧ name.toList.all isVariableChar ∧ type ≠ "" then .ok (name, type)
    else .error (.malformedDeclaration d)

/-- Variables with their types, in order of declaration. -/
abbrev Types := List (String × String)

/-- The variables declared so far. -/
structure Context where
  vars : Types
  frozenVars : Types
  ivars : Types
  deriving DecidableEq, Repr

namespace Context

/-- No variable is declared. -/
def empty : Context :=
  ⟨[], [], []⟩

/-- The type a variable was declared with. -/
def typeOf? (c : Context) (name : String) : Option String :=
  (find? name c.vars).or ((find? name c.frozenVars).or (find? name c.ivars))

/-- The variable is declared, as whatever kind. -/
def isDeclared (c : Context) (name : String) : Bool :=
  (c.typeOf? name).isSome

/-- The context with one more variable. -/
def add (c : Context) (kind : SectionKind) (name type : String) : Context :=
  match kind with
  | .ivar => { c with ivars := upsert name type c.ivars }
  | .frozenVar => { c with frozenVars := upsert name type c.frozenVars }
  | _ => { c with vars := upsert name type c.vars }

/-- The warning about a declaration that comes too late, if its type differs. -/
def conflictWarning (name kept dropped : String) : List String :=
  if kept = dropped then []
  else
    ["Variable '" ++ name ++ "' is declared with types '" ++ kept ++ "' and '" ++ dropped ++
      "', keeping '" ++ kept ++ "'"]

end Context

end Punctual
