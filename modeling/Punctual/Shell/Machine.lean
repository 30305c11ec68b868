import Punctual.Files.Tree
import Punctual.Shell.Script
import Punctual.Text.Search

/-!
# The machine that runs programs

A machine holds what a running program can see and change: variables and arguments, channels for
input and output, the files, and the time that has passed. Only programs that wait let time pass.

A run ends before its end for a reason of its own, a `Halt`: the program exits, leaves a loop or a
function, waits for input that has not come yet, or runs longer than it may.
-/

namespace Punctual.Shell

/-- Where a channel leads. -/
inductive Channel
  | closed
  /-- Gives nothing and keeps nothing. -/
  | null
  /-- Input from a numbered source. -/
  | source (n : Nat)
  /-- Output to a numbered sink. -/
  | sink (n : Nat)
  /-- Output to the end of a file. -/
  | file (place : Place)
  deriving DecidableEq, Repr

/-- Why a run ends before its end. -/
inductive Halt
  | exit (status : ExitStatus)
  /-- An error ends the interpreter. -/
  | failed
  /-- Leaves some loops, or goes on with their next round. -/
  | leave (loops : Nat) (goesOn : Bool)
  | finish
  /-- Waits for more input. -/
  | waiting
  /-- Has run as long as it may. -/
  | late
  /-- Goes on without end, however long it may run. -/
  | endless
  deriving DecidableEq, Repr

/-- Octets that were written to a sink at a time. -/
structure Chunk where
  time : Nat
  sink : Nat
  octets : Octets
  /-- The command in the background that wrote them. -/
  job : Option Nat

/-- A function of a script. -/
structure Function where
  /-- How many line feeds lie behind its start. -/
  left : Nat
  body : Script

/-- A command in the background. -/
structure Job where
  number : Nat
  /-- Its place among the jobs of its interpreter. -/
  index : Nat
  /-- When it ends, if it ends. -/
  ends : Option Nat
  status : ExitStatus

/-- A signal to an interpreter. -/
structure Arrival where
  time : Nat
  signal : Nat
  target : Nat
  /-- A script answers the signal, which ends the interpreter otherwise. -/
  isAnswered : Bool

/-- A machine. -/
structure Machine where
  /-- The values of variables. -/
  values : List (String × Octets)
  /-- The variables that programs get. -/
  exported : List String
  /-- Variables that stay as they are. -/
  fixed : List String
  functions : List (String × Function)
  /-- The number of the running interpreter. -/
  number : Nat
  name : Octets
  arguments : List Octets
  /-- The status of the last command. -/
  status : Nat
  /-- The values that variables of the running function had outside of it. -/
  outer : List (String × Option Octets)
  /-- A function is running. -/
  isInFunction : Bool
  /-- How many loops are running. -/
  loops : Nat
  /-- The scripts that run when signals come; the one of zero runs at the end. -/
  traps : List (Nat × Octets)
  /-- The scripts with which the interpreter of the number answers signals. -/
  answers : List (Nat × Octets)
  /-- A part of the interpreter runs as a process of its own. -/
  isApart : Bool
  channels : List (Nat × Channel)
  /-- The octets that each source still holds. -/
  sources : List (Nat × Octets)
  /-- The sources to which more input may come. -/
  openSources : List Nat
  /-- The sources that are files. -/
  fileSources : List Nat
  /-- All output, the last first. -/
  written : List Chunk
  /-- The number of the next source or sink. -/
  fresh : Nat
  tree : Tree
  /-- The directory from which paths are seen. -/
  directory : Place
  /-- The nanoseconds that have passed. -/
  clock : Nat
  /-- How many nanoseconds may pass. -/
  limit : Option Nat
  /-- The commands in the background, the last first. -/
  jobs : List Job
  /-- A command in the background is running. -/
  isBehind : Bool
  /-- The signals that come at some time, the last sent first; those that came are answered soon. -/
  arrivals : List Arrival
  /-- The status of the commands whose output was taken last. -/
  innerStatus : Option Nat
  /-- The files that can be started. -/
  startable : List Place
  /-- How many line feeds the running script has. -/
  lines : Nat
  /-- The line of the running command. -/
  line : Nat
  /-- The running command of the interpreter itself, or nothing. -/
  command : String
  /-- The argument that is searched for options next, and the place in it. -/
  optionPlace : Nat × Option Nat
  /-- The interpreter is the one that speaks at length. -/
  isWordy : Bool
  /-- A failing command ends the run. -/
  stopsOnFailure : Bool
  /-- A parameter that is not set ends the run. -/
  stopsOnUnset : Bool
  /-- Commands are shown before they run. -/
  showsCommands : Bool
  /-- Patterns stand for themselves. -/
  keepsPatterns : Bool
  /-- Files that are there are not written anew. -/
  keepsFiles : Bool
  /-- All variables that are set are given to programs. -/
  exportsAll : Bool

abbrev Act := EStateM Halt Machine

namespace Machine

/-- The number of the source of standard input. -/
def inputSource : Nat := 0

def outputSink : Nat := 1

def errorSink : Nat := 2

def standardChannels : List (Nat × Channel) :=
  [(0, .source inputSource), (1, .sink outputSink), (2, .sink errorSink)]

def firstNumber : Nat := 4711

/-- The variables of an interpreter before it runs anything. -/
def firstValues : List (String × Octets) :=
  [("IFS", " \t\n".toList), ("OPTIND", ['1']), ("PS2", "> ".toList), ("PS4", "+ ".toList)]

/-- The variables that a program gets from outside. -/
def givenNames : List String := ["HOME", "PATH", "PWD"]

/-- A machine with files and some input, before it runs anything. -/
def start (tree : Tree) (input : Octets) (staysOpen : Bool) (limit : Option Nat) : Machine where
  values := firstValues
  exported := givenNames
  fixed := []
  functions := []
  number := firstNumber
  name := "sh".toList
  arguments := []
  status := 0
  outer := []
  isInFunction := false
  loops := 0
  traps := []
  answers := []
  isApart := false
  channels := standardChannels
  sources := [(inputSource, input)]
  openSources := if staysOpen then [inputSource] else []
  fileSources := []
  written := []
  fresh := 3
  tree := tree
  directory := []
  clock := 0
  limit := limit
  jobs := []
  isBehind := false
  arrivals := []
  innerStatus := none
  startable := []
  lines := 0
  line := 1
  command := ""
  optionPlace := (1, none)
  isWordy := false
  stopsOnFailure := false
  stopsOnUnset := false
  showsCommands := false
  keepsPatterns := false
  keepsFiles := false
  exportsAll := false

/-- What has been written to some sinks by now, in the order of time. -/
def outputOf (m : Machine) (sinks : List Nat) : Octets :=
  let chunks := m.written.reverse.filter fun c => c.sink ∈ sinks && c.time ≤ m.clock
  (chunks.mergeSort fun c d => c.time ≤ d.time).flatMap Chunk.octets

/-- The path as it is seen from the working directory of the tree. -/
def pathFrom (m : Machine) (path : String) : String :=
  if m.directory = [] ∨ path = "" then path else Path.join m.directory.path path

end Machine

namespace Act

variable {α : Type}

def halt (h : Halt) : Act α :=
  throw h

/-- Runs an action and gives what it ends with; what it did remains. -/
def attempt (act : Act α) : Act (Except Halt α) := fun m =>
  match act m with
  | .ok a m => .ok (.ok a) m
  | .error h m => .ok (.error h) m

/-- Runs an action whatever happened, and ends as the first one did. -/
def andFinally (act : Act α) (last : Act Unit) : Act α := do
  let r ← attempt act
  last
  match r with
  | .ok a => return a
  | .error h => halt h

/-! ## Channels -/

def channel (n : Nat) : Act Channel := do
  let m ← get
  return (find? n m.channels).getD .closed

def setChannel (n : Nat) (c : Channel) : Act Unit :=
  modify fun m => { m with channels := upsert n c m.channels }

def freshNumber : Act Nat := do
  let m ← get
  set { m with fresh := m.fresh + 1 }
  return m.fresh

/-- A new source that holds some octets; more may come if it `staysOpen`. -/
def newSource (cs : Octets) (staysOpen : Bool := false) : Act Channel := do
  let n ← freshNumber
  modify fun m => { m with
    sources := (n, cs) :: m.sources
    openSources := if staysOpen then n :: m.openSources else m.openSources }
  return .source n

/-- Writes octets to a channel; whether they could be written. -/
def writeTo (n : Nat) (cs : Octets) : Act Bool := do
  match ← channel n with
  | .closed | .source _ => return false
  | .null => return true
  | .sink k => do
    if !cs.isEmpty then
      modify fun m => { m with written := ⟨m.clock, k, cs, none⟩ :: m.written }
    return true
  | .file place => do
    let m ← get
    let before := match m.tree.node? place with
      | some (.file bytes) => bytes
      | _ => ByteArray.empty
    set { m with tree := m.tree.put place (.file (before ++ Octets.toByteArray cs)) }
    return true

/-- Writes octets to standard output; the status is a failure if that is closed. -/
def write (cs : Octets) : Act Nat := do
  return if ← writeTo 1 cs then 0 else 1

def complain (s : String) : Act Unit := do
  let _ ← writeTo 2 (Octets.ofText s ++ ['\n'])

/-- Reports an error behind the name of the running script, the line of the running command, and its
name if it is one of the interpreter itself. -/
def fault (s : String) : Act Unit := do
  let m ← get
  complain (Octets.toText m.name ++ (if m.isWordy then ": line " else ": ") ++ toString m.line ++
    ": " ++ (if m.command = "" then "" else m.command ++ ": ") ++ s)

/-- Reports an error that ends the interpreter. -/
def fail (s : String) : Act α := do
  fault s
  halt .failed

/-- The octets that a source holds, and whether more may come. -/
def unread (k : Nat) : Act (Octets × Bool) := do
  let m ← get
  return ((find? k m.sources).getD [], k ∈ m.openSources)

def setUnread (k : Nat) (cs : Octets) : Act Unit :=
  modify fun m => { m with sources := upsert k cs m.sources }

/-- Ends the run for want of input. Only what is heard from outside comes later; any other source
that stays open never ends. -/
def starve (k : Nat) : Act α :=
  halt (if k = Machine.inputSource then .waiting else .endless)

/-- The octets of standard input: all of them, or those that are there if they are enough. -/
def readUntil (enough : Octets → Bool) : Act Octets := do
  match ← channel 0 with
  | .source k => do
    let (cs, more) ← unread k
    if more && !enough cs then starve k
    setUnread k []
    return cs
  | _ => return []

/-- The octets of standard input, and whether more follow without end. Waits for what comes from
outside until that has ended or is enough. -/
def readFlow (enough : Octets → Bool) : Act (Octets × Bool) := do
  match ← channel 0 with
  | .source k => do
    let (cs, more) ← unread k
    if more && k = Machine.inputSource && !enough cs then starve k
    setUnread k []
    return (cs, more && k ≠ Machine.inputSource)
  | _ => return ([], false)

/-- All octets of standard input. Waits for its end. -/
def readAll : Act Octets :=
  readUntil fun _ => false

/-- Runs an action that does with a part of standard input what it does with all of it. If more input
follows without end, the action goes on without end too. -/
def streaming (act : Act α) : Act α := do
  match ← channel 0 with
  | .source k => do
    let (_, more) ← unread k
    if more && k ≠ Machine.inputSource then
      modify fun m => { m with openSources := m.openSources.erase k }
      let a ← act
      modify fun m => { m with openSources := k :: m.openSources }
      let (left, _) ← unread k
      if left.isEmpty then starve k else return a
    else act
  | _ => act

/-- Does something with the octets of standard input that are there, and then waits for its end. -/
def readThrough (act : Octets → Act α) : Act α := do
  match ← channel 0 with
  | .source k => do
    let (cs, more) ← unread k
    setUnread k []
    let a ← act cs
    if more then starve k
    return a
  | _ => act []

/-- The next line of standard input without its line feed, and whether it had one. Waits for the
line feed or the end. -/
def readLine : Act (Octets × Bool) := do
  match ← channel 0 with
  | .source k => do
    let (cs, more) ← unread k
    match Text.cutAt? '\n' cs with
    | some (line, rest) =>
      setUnread k rest
      return (line, true)
    | none =>
      if more then starve k
      setUnread k []
      return (cs, false)
  | _ => return ([], false)

/-! ## Files and time -/

def readFile (path : String) : Act (Except IoError Octets) := do
  let m ← get
  return (m.tree.readBytes (m.pathFrom path)).map Octets.ofBytes

/-- Changes the files, or gives the reason why they cannot be changed. -/
def changeFiles (change : Tree → Except IoError Tree) : Act (Option IoError) := do
  let m ← get
  match change m.tree with
  | .ok tree =>
    set { m with tree := tree }
    return none
  | .error e => return some e

/-- The path of the device that gives and keeps nothing. -/
def nullPath : String := "/dev/null"

/-- The channel that a path of a device stands for. -/
def device? (path : String) : Option Nat :=
  match path with
  | "/dev/stdin" => some 0
  | "/dev/stdout" => some 1
  | "/dev/stderr" => some 2
  | _ => (Text.dropStart? "/dev/fd/".toList path.toList).bind Text.nat?

def openInput (path : String) : Act (Except IoError Channel) := do
  if path = nullPath then return .ok .null
  match device? path with
  | some n => return .ok (← channel n)
  | none =>
    match ← readFile path with
    | .ok cs =>
      let n ← freshNumber
      modify fun m => { m with
        sources := (n, cs) :: m.sources
        fileSources := n :: m.fileSources }
      return .ok (.source n)
    | .error e => return .error e

/-- Opens a file for writing, at its end if `append` and from its start otherwise. -/
def openOutput (path : String) (append : Bool) : Act (Except IoError Channel) := do
  if path = nullPath then return .ok .null
  if let some n := device? path then return .ok (← channel n)
  let m ← get
  let path := m.pathFrom path
  match m.tree.locate path with
  | .error e => return .error e
  | .ok place =>
    let kept := match m.tree.node? place with
      | some (.file bytes) => if append then bytes else ByteArray.empty
      | _ => ByteArray.empty
    match m.tree.writeBytes path kept with
    | .error e => return .error e
    | .ok tree =>
      set { m with tree := tree }
      return .ok (.file place)

/-- Lets time pass. A signal from the background that no script answers ends the interpreter. -/
def pass (nanos : Nat) : Act Unit := do
  let m ← get
  let ends := m.clock + nanos
  let comes (a : Arrival) : Bool :=
    !m.isBehind && !a.isAnswered && a.time ≤ ends && m.limit.all fun l => decide (a.time < l)
  match (m.arrivals.filter comes).mergeSort fun a b => a.time ≤ b.time with
  | a :: _ =>
    set { m with clock := max m.clock a.time, number := a.target }
    halt (.exit (.signal a.signal))
  | [] =>
    set { m with clock := ends }
    if m.limit.any fun l => decide (l ≤ ends) then halt .late

/-! ## Variables -/

/-- Sets a variable. One that stays as it is ends the run. -/
def setVariable (name : String) (value : Octets) : Act Unit := do
  let m ← get
  if m.fixed.contains name then fail (name ++ ": is read only")
  set { m with
    values := upsert name value m.values
    exported := if m.exportsAll then name :: m.exported else m.exported }

/-- Removes variables. One that stays as it is ends the run. -/
def unsetVariables (names : List String) : Act Unit := do
  let m ← get
  if let some name := names.find? m.fixed.contains then fail (name ++ ": is read only")
  set { m with
    values := m.values.filter fun (n, _) => !(n ∈ names)
    exported := m.exported.filter fun n => !(n ∈ names) }

def setStatus (n : Nat) : Act Unit :=
  modify fun m => { m with status := n }

def status : Act Nat := do
  return (← get).status

/-! ## Surroundings -/

/-- Runs an action with other channels, and then restores them. -/
def withChannels (changes : Act Bool) (act : Act Unit) : Act Unit := do
  let before := (← get).channels
  andFinally
    (do if ← changes then act)
    (modify fun m => { m with channels := before })

/-- Runs an action as a process of its own, and tells how that ended: variables, functions, arguments,
channels and the directory are as before afterwards. A signal to the running interpreter
or the one above it ends that too. -/
def process (act : Act Unit) : Act ExitStatus := do
  let before ← get
  set { before with
    traps := before.traps.filter fun (n, script) => n != 0 && script.isEmpty
    isApart := true }
  let r ← attempt act
  let after ← get
  set { before with
    status := after.status
    sources := after.sources
    openSources := after.openSources
    fileSources := after.fileSources
    written := after.written
    fresh := after.fresh
    tree := after.tree
    clock := after.clock
    limit := after.limit
    arrivals := after.arrivals
    startable := after.startable }
  match r with
  | .ok () | .error (.leave ..) | .error .finish => return .code after.status
  | .error .failed => return .code 2
  | .error (.exit (.code n)) => return .code n
  | .error (.exit (.signal n)) =>
    if after.number ≤ before.number then
      modify fun m => { m with number := after.number }
      halt (.exit (.signal n))
    else return .signal n
  | .error h => halt h

/-- What is reported about a program that a signal ended. -/
def signalReport? : Nat → Option String
  | 1 => some "Hangup"
  | 3 => some "Quit"
  | 4 => some "Illegal instruction"
  | 5 => some "Trace/breakpoint trap"
  | 6 => some "Aborted"
  | 7 => some "Bus error"
  | 8 => some "Floating point exception"
  | 9 => some "Killed"
  | 10 => some "User defined signal 1"
  | 11 => some "Segmentation fault"
  | 12 => some "User defined signal 2"
  | 14 => some "Alarm clock"
  | 15 => some "Terminated"
  | 16 => some "Stack fault"
  | 24 => some "CPU time limit exceeded"
  | 25 => some "File size limit exceeded"
  | 26 => some "Virtual timer expired"
  | 27 => some "Profiling timer expired"
  | 29 => some "I/O possible"
  | 30 => some "Power failure"
  | 31 => some "Bad system call"
  | n => if 34 ≤ n then some ("Real-time signal " ++ toString (n - 34)) else none

/-- The status of a process that ended; a signal is reported if that is wanted. -/
def settle (reports : Bool) : ExitStatus → Act Unit
  | .code n => setStatus n
  | .signal n => do
    if reports then (signalReport? n).forM complain
    setStatus (128 + n)

def apart (act : Act Unit) : Act Unit := do
  settle true (← process act)

/-- Goes on as another program, which only knows what is exported. -/
def become (act : Act Unit) : Act Unit := do
  let number ← freshNumber
  modify fun m => { m with
    number := m.number + number
    functions := []
    values := Machine.firstValues ++ m.values.filter fun (n, _) => m.exported.contains n
    outer := []
    isInFunction := false
    loops := 0
    traps := m.traps.filter fun (_, script) => script.isEmpty
    answers := m.traps.filter fun (_, script) => script.isEmpty
    isApart := false
    status := 0
    fixed := []
    jobs := []
    isBehind := false
    command := ""
    optionPlace := (1, none)
    isWordy := false
    stopsOnFailure := false
    stopsOnUnset := false
    showsCommands := false
    keepsPatterns := false
    keepsFiles := false
    exportsAll := false }
  act

/-- Runs an action and takes what it writes to standard output, and why it ended early. -/
def captureAll (act : Act Unit) : Act (Octets × Option Halt) := do
  let n ← freshNumber
  let before ← get
  let r ← attempt do
    setChannel 1 (.sink n)
    act
  let m ← get
  set { m with channels := before.channels, written := m.written.filter fun c => c.sink != n }
  return (m.outputOf [n], match r with
    | .ok () => none
    | .error h => some h)

/-- Runs an action and takes what it writes to standard output. -/
def capture (act : Act Unit) : Act Octets := do
  match ← captureAll act with
  | (cs, none) => return cs
  | (_, some h) => halt h

end Act

end Punctual.Shell
