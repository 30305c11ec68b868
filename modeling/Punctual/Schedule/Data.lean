import Punctual.Files.Tree
import Punctual.Schedule.Basic

/-!
# Schedules as data

A schedule is read from a record with the fields `horizon` and `tasks`, and written back the same
way. Texts that are given as input may be unreadable, may be no data of the right shape, or may
hold data that break a rule of what is read; `InputError` tells these apart.
-/

namespace Punctual

/-- Why an input gives no value. -/
inductive InputError (ε : Type)
  | unreadable (e : IoError)
  | notData (f : Json.Flaw)
  | invalid (e : ε)

/-- The text that reports the error, but for flaws in data. -/
def InputError.message {ε : Type} (describe : ε → String) : InputError ε → String
  | .unreadable e => "Failed to read input file: " ++ e.message
  | .notData _ => "Malformed JSON input"
  | .invalid e => "Invalid input: " ++ describe e

/-- Reads an input file with a reader of its text. -/
def Tree.readInput {ε α : Type} (t : Tree) (path : String)
    (read : String → Except (InputError ε) α) : Except (InputError ε) α :=
  match t.readText path with
  | .error e => .error (.unreadable e)
  | .ok text => read text

/-- Reads an entry of a unit's list: name and window. -/
def Slot.reader : Json.Reader Slot :=
  (Json.Reader.pair .text Window.reader).map fun (name, window) => ⟨name, window⟩

/-- Writes an entry of a unit's list. -/
def Slot.write (s : Slot) : String :=
  Json.writeList [Json.writeText s.name, s.window.write]

namespace Schedule

/-- A schedule whose fields are being read. -/
structure Draft where
  horizon : Option Window
  units : Option Units

/-- Reads the fields of a schedule. -/
def draftReader : Json.Reader (Window × Units) :=
  .record
    [ { name := "horizon"
        read := Window.reader.map fun w d => { d with horizon := some w }
        mayEnd := false },
      { name := "tasks"
        read := (Json.Reader.object (.list Slot.reader)).map fun us d => { d with units := some us }
        mayEnd := false } ]
    (Draft.mk none none)
    fun d => do return (← d.horizon, ← d.units)

/-- Reads a schedule from a text. -/
def read (text : String) : Except (InputError ScheduleError) Schedule :=
  match Json.parse draftReader text with
  | .error f => .error (.notData f)
  | .ok (horizon, units) =>
    match ofUnits horizon units with
    | .error e => .error (.invalid e)
    | .ok s => .ok s

/-- Writes a schedule as data. -/
def write (s : Schedule) : String :=
  Json.writeObject
    [ ("horizon", s.horizon.write),
      ("tasks", Json.writeObject (s.units.map fun (unit, slots) =>
        (unit, Json.writeList (slots.map Slot.write)))) ]

end Schedule

end Punctual
