import Punctual.Shell.Lookup
import Punctual.Shell.Record.Reader

/-!
# The state of record programs

A running program has variables and tables, the record it works on with its fields, the inputs that
it reads and the outputs that it writes. What it writes is held back: until the program ends, or
until it starts another one.
-/

namespace Punctual.Shell.Record

/-- Why a program does not go on where it is. -/
inductive Leap
  | next
  | nextFile
  | exit (status : Option Nat)
  | back (v : Value)
  | leave
  | goOn
  /-- An error ends the program. -/
  | fatal
  | halt (h : Halt)

/-- What a name of a running function stands for. -/
inductive Local
  | value (v : Value)
  | table (n : Nat)

/-- What has not been taken yet of an input. -/
structure Inlet where
  buffer : Octets
  /-- The source from which more may come. -/
  source : Option Nat
  /-- More follows without end. -/
  isEndless : Bool
  /-- The status of the command that wrote the input. -/
  status : Nat

/-- An output. -/
structure Outlet where
  name : Octets
  /-- The channel of a file; the output of a command is kept until its end. -/
  channel : Option Channel
  /-- What is held back, the last first. -/
  held : List Octets

/-- A running program. -/
structure State where
  machine : Machine
  values : Std.HashMap String Value
  tableNumbers : Std.HashMap String Nat
  tables : Array Table
  /-- What the names of the running function stand for. -/
  names : List (String × Local)
  record : Octets
  fields : Array Value
  input : Option Inlet
  /-- The number of the next argument that is an input. -/
  place : Nat
  /-- An input was opened. -/
  isOpened : Bool
  /-- Other inputs: files and commands, by their names. -/
  files : List (Octets × Inlet)
  commands : List (Octets × Inlet)
  /-- Outputs, that one first that was used last. -/
  outlets : List Outlet
  /-- What is held back of standard output, the last first, and how many octets that is. -/
  held : List Octets
  heldCount : Nat
  /-- The patterns from a record to another one that have begun. -/
  begun : List Nat
  status : Nat
  seed : Float

abbrev Run := EStateM Leap State

def firstValues : List (String × Value) :=
  [("FS", .text [' ']), ("OFS", .text [' ']), ("RS", .text ['\n']), ("ORS", .text ['\n']),
    ("SUBSEP", .text ['\x1c']), ("CONVFMT", .text "%.6g".toList), ("OFMT", .text "%.6g".toList),
    ("NR", .number 0), ("FNR", .number 0), ("RSTART", .number 0), ("RLENGTH", .number (-1)),
    ("FILENAME", .text [])]

def State.start (m : Machine) (arguments : List Octets) : State where
  machine := m
  values := .ofList (("ARGC", .ofNat arguments.length) :: firstValues)
  tableNumbers := .ofList [("ARGV", 0), ("ENVIRON", 1)]
  tables := #[
    (arguments.zipIdx.foldl (fun t (a, i) => t.put ⟨Octets.ofNat i, some i⟩ (.given a)) .empty),
    (m.values.foldl (fun t (n, v) =>
      if m.exported.contains n then t.put ⟨Octets.ofText n, none⟩ (.given v) else t) .empty)]
  names := []
  record := []
  fields := #[]
  input := none
  place := 1
  isOpened := false
  files := []
  commands := []
  outlets := []
  held := []
  heldCount := 0
  begun := []
  status := 0
  seed := 1

namespace Run

variable {α : Type}

def act (a : Act α) : Run α := fun s =>
  match a s.machine with
  | .ok x m => .ok x { s with machine := m }
  | .error h m => .error (.halt h) { s with machine := m }

/-- Runs an action and gives what it ends with; what it did remains. -/
def attempt (a : Run α) : Run (Except Leap α) := fun s =>
  match a s with
  | .ok x s => .ok (.ok x) s
  | .error l s => .ok (.error l) s

def iterate (a : Run Bool) : Nat → Run Unit
  | 0 => throw (.halt .endless)
  | fuel + 1 => do
    if ← a then iterate a fuel

/-- The number of times that nothing which ends is repeated. -/
def bound : Nat := 3000000

/-! ## Variables -/

/-- The value of a variable of the whole program. -/
def global (name : String) : Run Value := do
  return ((← get).values[name]?).getD .missing

/-- The octets of a variable that steers the program. -/
def setting (name : String) : Run Octets := do
  match ← global name with
  | .number x => return (Value.number x).toText "%.6g".toList
  | v => return v.toText []

def text (v : Value) : Run Octets := do
  match v with
  | .number x => return (Value.number x).toText (← setting "CONVFMT")
  | v => return v.toText []

/-- Sets a variable of the whole program that steers nothing. -/
def setGlobal (name : String) (v : Value) : Run Unit :=
  modify fun s => { s with values := s.values.insert name v }

/-! ## Reports -/

def fail (report : String) : Run α := do
  act (Act.complain ("awk: " ++ report))
  modify fun s => { s with status := 2 }
  throw .fatal

/-- Ends the program with a report about what it was doing. -/
def failAt (report : String) : Run α := do
  let file ← setting "FILENAME"
  let inFile ← setting "FNR"
  let inAll ← setting "NR"
  fail ("run time error: " ++ report ++ "\n\tFILENAME=\"" ++ Octets.toText file ++ "\" FNR=" ++
    Octets.toText inFile ++ " NR=" ++ Octets.toText inAll)

/-! ## Fields -/

/-- How fields are told apart. -/
inductive Separator
  | blanks
  /-- Each octet is a field. -/
  | nothing
  | octet (c : Char)
  | regex (r : Regex)

def regexOf (cs : Octets) : Run Regex := do
  match Record.regexOf cs with
  | .ok r => return r
  | .error report => failAt report

def separatorOf (cs : Octets) : Run Separator := do
  match cs with
  | [] => return .nothing
  | [c] => return if c = ' ' then .blanks else .octet c
  | cs => return .regex (← regexOf cs)

/-- The octets between matches that are not empty; `passed` stands in front of them. -/
def between (r : Regex) : Nat → Octets → Octets → List Octets
  | 0, _, cs => [cs]
  | fuel + 1, passed, cs =>
    match r.search passed cs with
    | none => [cs]
    | some m =>
      if m.found.isEmpty then [cs]
      else m.before.drop passed.length :: between r fuel (m.before ++ m.found) m.behind

def split (separator : Separator) (cs : Octets) : List Octets :=
  if cs.isEmpty then []
  else
    match separator with
    | .blanks => words cs
    | .nothing => cs.map fun c => [c]
    | .octet c => Tool.fieldsOf c cs
    | .regex r => between r cs.length [] cs

def setRecord (cs : Octets) : Run Unit := do
  let fields := split (← separatorOf (← setting "FS")) cs
  modify fun s => { s with record := cs, fields := (fields.map Value.given).toArray }

def joinFields : Run Unit := do
  let separator ← setting "OFS"
  let texts ← (← get).fields.toList.mapM text
  modify fun s => { s with record := List.intercalate separator texts }

/-- Sets a field. The record gets as many fields as that asks for. -/
def setField (n : Nat) (v : Value) : Run Unit := do
  if n = 0 then setRecord (← text v)
  else
    modify fun s => { s with
      fields := (s.fields ++ Array.replicate (n - s.fields.size) (Value.text [])).setIfInBounds (n - 1) v }
    joinFields

def setCount (v : Value) : Run Unit := do
  let n := truncated v.toNumber
  if n < 0 then failAt "negative value assigned to NF"
  modify fun s => { s with
    fields := s.fields.take n.toNat ++ Array.replicate (n.toNat - s.fields.size) (Value.text []) }
  joinFields

def field (n : Nat) : Run Value := do
  let s ← get
  return if n = 0 then .given s.record else (s.fields[n - 1]?).getD .missing

/-! ## Tables -/

def newTable : Run Nat :=
  modifyGet fun s => (s.tables.size, { s with tables := s.tables.push .empty })

def tableOf (name : String) : Run Nat := do
  let s ← get
  match find? name s.names with
  | some (.table n) => return n
  | _ =>
    match s.tableNumbers[name]? with
    | some n => return n
    | none =>
      let n ← newTable
      modify fun s => { s with tableNumbers := s.tableNumbers.insert name n }
      return n

def withTable (n : Nat) (f : Table → α × Table) : Run α :=
  modifyGet fun s =>
    let t := (s.tables[n]?).getD .empty
    let s := { s with tables := s.tables.setIfInBounds n .empty }
    let (a, t) := f t
    (a, { s with tables := s.tables.setIfInBounds n t })

/-- The value of a key, which is there from then on. -/
def element (n : Nat) (k : Key) : Run Value :=
  withTable n fun t =>
    match t.find k with
    | (some v, t) => (v, t)
    | (none, t) => (.missing, t.put k .missing)

/-! ## Output -/

/-- How many octets are held back at most where the program goes on without end. -/
def capacity : Nat := 4096

/-- Writes what is held back of standard output. -/
def flushOwn : Run Unit := do
  let s ← get
  if !s.held.isEmpty then
    modify fun s => { s with held := [], heldCount := 0 }
    let _ ← act (Act.write s.held.reverse.flatten)

def hold (cs : Octets) : Run Unit :=
  modify fun s => { s with held := cs :: s.held, heldCount := s.heldCount + cs.length }

def writeTo (c : Channel) (cs : Octets) : Act Unit :=
  Act.withChannels (do
    Act.setChannel 1 c
    return true) (do
    let _ ← Act.write cs)

def flushFile (o : Outlet) : Run Outlet := do
  match o.channel with
  | some c =>
    if !o.held.isEmpty then act (writeTo c o.held.reverse.flatten)
    return { o with held := [] }
  | none => return o

/-- Writes what is held back for standard output and for files. -/
def flushAll : Run Unit := do
  flushOwn
  let os ← (← get).outlets.mapM flushFile
  modify fun s => { s with outlets := os }

def statusOf : ExitStatus → Nat
  | .code n => n
  | .signal n => 256 + n

def shell (run : Runner) (interpreter : String) (command : Octets) : Act Nat := do
  return statusOf (← Act.process (Act.become
    (run interpreter.toList ["-c".toList, command])))

/-- The interpreter that runs the commands at the other ends of inputs and outputs. -/
def endInterpreter : String := "/bin/sh"

/-- Ends an output, and gives the status of its command. -/
def closeOutlet (run : Runner) (o : Outlet) : Run Nat := do
  match o.channel with
  | some _ =>
    let _ ← flushFile o
    return 0
  | none =>
    act do
      let before := (← get).channels
      let c ← Act.newSource o.held.reverse.flatten
      Act.setChannel 0 c
      let status ← shell run endInterpreter o.name
      modify fun m => { m with channels := before }
      return status

/-- The output of a name, which is opened if that has not been done. -/
def outlet (way : Way) (name : Octets) : Run Outlet := do
  match (← get).outlets.find? fun o => o.name == name with
  | some o => return o
  | none =>
    if way = .command then
      flushOwn
      return ⟨name, none, []⟩
    else
      match ← act (Act.openOutput (Octets.toText name) (way = .append)) with
      | .ok c => return ⟨name, some c, []⟩
      | .error e =>
        fail ("cannot open \"" ++ Octets.toText name ++ "\" for output (" ++ Tool.reason e ++ ")")

def emit (sink : Option (Way × Octets)) (cs : Octets) : Run Unit := do
  match sink with
  | none => hold cs
  | some (way, name) =>
    let path := Octets.toText name
    if way ≠ .command && (path = "/dev/stdout" || path = "-") then hold cs
    else if way ≠ .command && path = "/dev/stderr" then
      let _ ← act (Act.writeTo 2 cs)
    else
      let o ← outlet way name
      modify fun s => { s with
        outlets := { o with held := cs :: o.held } :: s.outlets.filter fun o => o.name != name }

/-- Ends all outputs, and standard output last. -/
def closeAll (run : Runner) : Run Unit := do
  for o in (← get).outlets do
    let _ ← closeOutlet run o
  modify fun s => { s with outlets := [] }
  flushOwn

/-! ## Input -/

/-- A record in front of octets, the octets behind it, and whether it has ended. -/
def cut? (separator : Octets) (r? : Option Regex) (cs : Octets) :
    Option (Octets × Octets × Bool) :=
  match separator, r? with
  | [c], _ =>
    if cs.isEmpty then none
    else
      match Text.cutAt? c cs with
      | some (record, rest) => some (record, rest, true)
      | none => some (cs, [], false)
  | _, some r =>
    if cs.isEmpty then none
    else
      match r.search [] cs with
      | some m => if m.found.isEmpty then some (cs, [], false) else some (m.before, m.behind, true)
      | none => some (cs, [], false)
  | _, none =>
    let cs := cs.dropWhile (· = '\n')
    if cs.isEmpty then none
    else some (paragraph cs)
where
  /-- The octets up to an empty line. -/
  paragraph : Octets → Octets × Octets × Bool
    | [] => ([], [], false)
    | '\n' :: '\n' :: cs => ([], cs.dropWhile (· = '\n'), true)
    | ['\n'] => ([], [], false)
    | c :: cs =>
      let (record, rest, ends) := paragraph cs
      (c :: record, rest, ends)

/-- The next record of an input, and what is left of the input. -/
def take (i : Inlet) : Run (Option Octets × Inlet) := do
  let separator ← setting "RS"
  let r? ← if separator.length < 2 then pure none else some <$> regexOf separator
  match cut? separator r? i.buffer with
  | some (record, rest, true) => return (some record, { i with buffer := rest })
  | cut =>
    if let some k := i.source then act (Act.starve k)
    if i.isEndless then throw (.halt .endless)
    match cut with
    | some (record, rest, _) => return (some record, { i with buffer := rest })
    | none => return (none, i)

/-- The input that a path names, or why there is none. -/
def openInlet (path : String) : Run (Except IoError Inlet) := do
  if Tool.inputPaths.contains path then
    match ← act (Act.channel 0) with
    | .source k =>
      let (cs, more) ← act (Act.unread k)
      act (Act.setUnread k [])
      return .ok ⟨cs, if more then some k else none, false, 0⟩
    | _ => return .ok ⟨[], none, false, 0⟩
  else
    match ← act (Tool.contentOf (Octets.ofText path)) with
    | .ok cs => return .ok ⟨cs, none, false, 0⟩
    | .error .isDirectory => fail "read error (Is a directory)"
    | .error e => return .error e

def openCommand (run : Runner) (command : Octets) : Run Inlet := do
  flushAll
  let (status, cs, h?) ← act do
    let (cs, h?) ← Act.captureAll do
      Act.setStatus (← shell run endInterpreter command)
    return (← Act.status, cs, h?)
  match h? with
  | none => return ⟨cs, none, false, status⟩
  | some .endless => return ⟨cs, none, true, status⟩
  | some h => throw (.halt h)

/-- The variable and the value that an argument sets. -/
def assigned? (arg : Octets) : Option (String × Octets) :=
  match Text.cutAt? '=' arg with
  | some (name, value) =>
    if name.all Token.isNameOctet && name.head?.any fun c => !c.isDigit then
      some (Octets.toText name, Token.escaped value.length value)
    else none
  | none => none

/-- Opens the next input that arguments name, or standard input if they name none. `assign` sets the
variables of arguments. -/
def openNext (assign : String → Value → Run Unit) : Nat → Run (Option Inlet)
  | 0 => return none
  | fuel + 1 => do
    let n := (← get).place
    let count ← global "ARGC"
    if Float.ofNat n < count.toNumber then
      modify fun s => { s with place := n + 1 }
      let arg ← withTable 0 fun t =>
        let (v?, t) := t.find ⟨Octets.ofNat n, some n⟩
        ((v?.getD .missing), t)
      let arg ← text arg
      match arg, assigned? arg with
      | [], _ => openNext assign fuel
      | _, some (name, value) =>
        assign name (.given value)
        openNext assign fuel
      | arg, none =>
        match ← openInlet (Octets.toText arg) with
        | .ok i => opened arg i
        | .error e =>
          fail ("cannot open \"" ++ Octets.toText arg ++ "\" (" ++ Tool.reason e ++ ")")
    else if (← get).isOpened then return none
    else
      match ← openInlet "-" with
      | .ok i => opened ['-'] i
      | .error _ => return none
where
  /-- An input of a name was opened. -/
  opened (name : Octets) (i : Inlet) : Run (Option Inlet) := do
    modify fun s => { s with isOpened := true }
    setGlobal "FILENAME" (.text name)
    setGlobal "FNR" (.number 0)
    return some i

/-- The next record of the inputs that arguments name. -/
def takeNext (assign : String → Value → Run Unit) : Nat → Run (Option Octets)
  | 0 => return none
  | fuel + 1 => do
    let i? ← match (← get).input with
      | some i => pure (some i)
      | none => openNext assign (((← get).tables[0]?.map Table.size).getD 0 + 2)
    match i? with
    | none => return none
    | some i =>
      modify fun s => { s with input := none }
      match ← take i with
      | (some record, i) =>
        modify fun s => { s with input := some i }
        return some record
      | (none, _) => takeNext assign fuel

/-- Counts a record that was taken from the inputs that arguments name. -/
def countRecord : Run Unit := do
  setGlobal "NR" (.number ((← global "NR").toNumber + 1))
  setGlobal "FNR" (.number ((← global "FNR").toNumber + 1))

end Run

end Punctual.Shell.Record
