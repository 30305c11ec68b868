import Punctual.Schedule.Data

/-!
# Plant states

A plant state gives every variable of the process model a truth value or an integer at one point
in time. It is read from an object of such values. The entry `time` has to be an integer. Entries
whose name starts with an underscore are no variables; one of them may hold the wall clock time,
which is kept as it was given.
-/

namespace Punctual

/-- The value of a variable. -/
inductive StateValue
  | bool (b : Bool)
  | int (n : Int)
  deriving DecidableEq, Repr

/-- Why an object is no plant state. -/
inductive StateError
  | missingTime
  | invalidValue (name : String)
  deriving DecidableEq, Repr

/-- The text that reports the error. -/
def StateError.message : StateError → String
  | .missingTime => "Plant state does not contain an integer 'time' entry"
  | .invalidValue name =>
    "Value of plant state variable '" ++ name ++ "' is neither a boolean nor an integer"

/-- The values of all variables at one time. -/
structure PlantState where
  time : Time
  absoluteTime : Json.Value
  values : List (String × StateValue)

namespace PlantState

/-- The variable that holds the time. -/
def timeVariable : String := "time"

/-- The entry that holds the wall clock time. -/
def absoluteTimeEntry : String := "_absolute_time"

/-- The value of a variable, if the data value can be one. -/
def valueOf? : Json.Value → Option StateValue
  | .bool b => some (.bool b)
  | .int n => if Time.Fits n then some (.int n) else none
  | _ => none

/-- A plant state whose entries are being read. -/
structure Draft where
  time : Option Time
  absoluteTime : Json.Value
  values : List (String × StateValue)

/-- Takes one more entry. -/
def Draft.add (d : Draft) (name : String) (v : Json.Value) : Except StateError Draft :=
  if name = absoluteTimeEntry then .ok { d with absoluteTime := v }
  else if name.toList.head? = some '_' then .ok d
  else
    match valueOf? v with
    | none => .error (.invalidValue name)
    | some value =>
      let values := d.values ++ [(name, value)]
      if name = timeVariable then
        match value with
        | .int t => .ok { d with time := some t, values := values }
        | .bool _ => .error .missingTime
      else .ok { d with values := values }

/-- The plant state of an object with distinct names. -/
def ofMembers (members : List (String × Json.Value)) : Except StateError PlantState := do
  let d ← members.foldlM (fun d (name, v) => d.add name v) (Draft.mk none .null [])
  match d.time with
  | some time => return ⟨time, d.absoluteTime, d.values⟩
  | none => throw .missingTime

/-- Reads a plant state from a text. -/
def read (text : String) : Except (InputError StateError) PlantState :=
  match Json.parse (.object .any) text with
  | .error f => .error (.notData f)
  | .ok members =>
    match ofMembers members with
    | .error e => .error (.invalid e)
    | .ok s => .ok s

/-- The value of a variable. -/
def get? (s : PlantState) (name : String) : Option StateValue :=
  find? name s.values

/-- The constraint of a variable in the initial state. -/
def constraint (name : String) : StateValue → String
  | .bool true => "INIT " ++ name ++ ";"
  | .bool false => "INIT !" ++ name ++ ";"
  | .int n => "INIT " ++ name ++ " = " ++ toString n ++ ";"

/-- The plant state as constraints of the initial state of a model, a line for each variable. -/
def initText (s : PlantState) : String :=
  String.join (s.values.map fun (name, v) => constraint name v ++ "\n")

/-- A value as texts show it. -/
def valueText : StateValue → String
  | .bool b => if b then "true" else "false"
  | .int n => toString n

/-- The plant state as texts show it. -/
def text (s : PlantState) : String :=
  "\x7b" ++ ", ".intercalate (s.values.map fun (name, v) => name ++ " = " ++ valueText v) ++ "\x7d"

end PlantState

end Punctual
