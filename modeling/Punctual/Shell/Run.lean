import Punctual.Shell.Command
import Punctual.Shell.Sum

/-!
# Running scripts

A script runs on a machine. Words are expanded when the command that they belong to runs; the
commands of a pipe run one after another, each on the whole output of the one before.

The functions that call one another count down from a number that no script reaches which ends;
one that reaches it counts as a script that goes on without end.
-/

namespace Punctual.Shell

namespace Script

def bound : Nat := 400000

def checkFailure : Act Unit := do
  let m ← get
  if m.stopsOnFailure && m.status != 0 then Act.halt (.exit (.code m.status))

/-- Runs an action in which no failure ends the run. -/
def unwatched (act : Act Unit) : Act Unit := do
  let before := (← get).stopsOnFailure
  modify fun m => { m with stopsOnFailure := false }
  Act.andFinally act (modify fun m => { m with stopsOnFailure := before })

/-- The values with some variables as they were; one without a value was not set. -/
def valuesBefore (saved : List (String × Option Octets)) (values : List (String × Octets)) :
    List (String × Octets) :=
  saved.foldl
    (fun vs (name, value) =>
      match value with
      | some v => upsert name v vs
      | none => vs.filter fun (k, _) => k != name)
    values

/-- Runs an action and then gives variables the values they had before. -/
def restoring (names : List String) (act : Act Unit) : Act Unit := do
  let before ← get
  act
  modify fun m => { m with
    values := valuesBefore (names.map fun n => (n, find? n before.values)) m.values
    exported := before.exported }

/-- Runs an action whose lines are counted by some number of line feeds. -/
def withLines (n : Nat) (act : Act Unit) : Act Unit := do
  let before := (← get).lines
  modify fun m => { m with lines := n }
  Act.andFinally act (modify fun m => { m with lines := before })

/-- Runs an action as the command of a name, which stands in reports. -/
def asCommand (name : String) (act : Act Unit) : Act Unit := do
  let before := (← get).command
  modify fun m => { m with command := name }
  Act.andFinally act (modify fun m => { m with command := before })

/-! ## Channels -/

/-- Why a file could not be opened, in the words of the interpreter. -/
def openFailure (verb missing : String) (path : String) (e : IoError) : String :=
  "cannot " ++ verb ++ " " ++ path ++ ": " ++
    if e = .notFound ∨ e = .notDirectory then missing else Tool.reason e

def refuseChannel (text : String) : Act Bool := do
  Act.fault text
  Act.setStatus 2
  return false

/-- Lets a channel lead to a file, or reports why it cannot. -/
def openChannel (n : Nat) (opened : Except IoError Channel) (failure : IoError → String) :
    Act Bool := do
  match opened with
  | .ok c =>
    Act.setChannel n c
    return true
  | .error e => refuseChannel (failure e)

def redirectTo (n : Nat) (kind : RedirectKind) (target : Octets) : Act Bool := do
  let path := Octets.toText target
  let create := openFailure "create" "Directory nonexistent" path
  match kind with
  | .input => openChannel n (← Act.openInput path) (openFailure "open" "No such file" path)
  | .output => do
    let m ← get
    if m.keepsFiles && m.tree.isFile (m.pathFrom path) && path != Act.nullPath then
      refuseChannel (create .alreadyExists)
    else openChannel n (← Act.openOutput path false) create
  | .overwrite => openChannel n (← Act.openOutput path false) create
  | .append => openChannel n (← Act.openOutput path true) create
  | .same =>
    if path = "-" then
      Act.setChannel n .closed
      return true
    else
      match Text.nat? target with
      | some k =>
        match ← Act.channel k with
        | .closed => refuseChannel (toString k ++ ": Bad file descriptor")
        | c =>
          Act.setChannel n c
          return true
      | none => Act.fail "Syntax error: Bad fd number"
  | .text =>
    Act.setChannel n (← Act.newSource target)
    return true

/-! ## Functions, loops and the end -/

/-- Runs the body of a function with arguments and variables of its own. -/
def asFunction (f : Function) (args : List Octets) (act : Act Unit) : Act Unit := do
  let before ← get
  set { before with
    arguments := args
    outer := []
    isInFunction := true
    loops := 0 }
  let r ← Act.attempt (withLines f.left act)
  modify fun m => { m with
    arguments := before.arguments
    values := valuesBefore m.outer m.values
    outer := before.outer
    isInFunction := before.isInFunction
    loops := before.loops }
  match r with
  | .ok () | .error .finish => return ()
  | .error h => Act.halt h

/-- Ends the run, since a parameter is not set, or not as it has to be. -/
def refuse {α : Type} (name report : String) : Act α :=
  Act.fail (name ++ ": " ++ report)

/-- Runs a round of a loop; whether the loop goes on. -/
def round (act : Act Unit) : Act Bool := do
  modify fun m => { m with loops := m.loops + 1 }
  let r ← Act.attempt act
  modify fun m => { m with loops := m.loops - 1 }
  match r with
  | .ok () => return true
  | .error (.leave n goesOn) =>
    if 1 < n then Act.halt (.leave (n - 1) goesOn)
    return goesOn
  | .error h => Act.halt h

/-- Shows a command in front of its run if commands are shown. -/
def showCommand (errors : Channel) (settings : List (String × Octets)) (ws : List Octets) :
    Act Unit := do
  if (← get).showsCommands then
    let set := settings.map fun (name, value) => Octets.ofText (name ++ "=") ++ value
    Act.withChannels
      (do
        Act.setChannel 2 errors
        return true)
      (Act.complain ("+ " ++ Octets.toText (List.intercalate [' '] (set ++ ws))))

/-- The signals that have come and that scripts of the running interpreter answer. -/
def comeSignals : Act (List Nat) := do
  let m ← get
  if m.isApart then return []
  else
    let isHere (a : Arrival) : Bool := a.isAnswered && a.target = m.number && a.time ≤ m.clock
    set { m with arrivals := m.arrivals.filter fun a => !isHere a }
    return (m.arrivals.filter isHere).reverse.map Arrival.signal

/-- Octets without zeros and without line feeds at their end. -/
def trimmed (cs : Octets) : Octets :=
  Text.dropEndWhile (· = '\n') (cs.filter (· ≠ '\x00'))

/-! ## Starting the interpreter -/

/-- How the interpreter was called. -/
structure Invocation where
  /-- The script is the first operand. -/
  takesText : Bool
  /-- The script is the input. -/
  readsInput : Bool

/-- Takes the letters of an option of the interpreter; whether the name of a flag has to follow. -/
def startLetters (on : Bool) (i : Invocation) (named : Bool) : Octets → Act (Invocation × Bool)
  | [] => return (i, named)
  | c :: cs => do
    match c with
    | 'c' => startLetters on { i with takesText := true } named cs
    | 's' => startLetters on { i with readsInput := true } named cs
    | 'i' | 'l' => startLetters on i named cs
    | 'o' => startLetters on i true cs
    | c =>
      if ← Builtin.setFlag on c then startLetters on i named cs
      else Act.fail ("Illegal option -" ++ Octets.toText [c])

/-- Takes the options of the interpreter; its operands are left. -/
def startOptions (i : Invocation) : Nat → List Octets → Act (Invocation × List Octets)
  | fuel + 1, (sign :: cs) :: args => do
    let isSign := sign = '-' || sign = '+'
    if !isSign then return (i, (sign :: cs) :: args)
    else if sign = '-' && (cs.isEmpty || cs = ['-']) then return (i, args)
    else
      let (i, named) ← startLetters (sign = '-') i false cs
      if !named then startOptions i fuel args
      else
        match args with
        | [] => return (i, [])
        | name :: args =>
          match find? (Octets.toText name) Builtin.flagNames with
          | some c =>
            let _ ← Builtin.setFlag (sign = '-') c
            startOptions i fuel args
          | none => Act.fail ("Illegal option -o " ++ Octets.toText name)
  | _, args => return (i, args)

mutual

def expandPart : Nat → Part → Act (List Bit)
  | 0, _ => Act.halt .endless
  | fuel + 1, p =>
    match p with
    | .plain cs => return cs.map (.fixed · false)
    | .quoted cs => return Bit.quoted cs
    | .parameter isQuoted name t w => do
      let m ← get
      if name = "" then Act.fail "Bad substitution"
      else if t = .none ∧ name = "@" then return Bit.ofValues isQuoted m.arguments
      else if t = .none ∧ name = "*" then
        if isQuoted then
          return Bit.quoted (List.intercalate (m.separators.take 1) m.arguments)
        else return Bit.ofValues false m.arguments
      else transform fuel isQuoted name (m.value? name) t w
    | .output isQuoted lines s => do
      let run := withLines (lines.getD (← get).lines) (ending fuel (execute fuel s))
      let before ← Act.status
      let cs ← Act.capture (Act.apart run)
      modify fun m => { m with status := before, innerStatus := some m.status }
      return Bit.ofValue isQuoted (trimmed cs)
    | .sum isQuoted w => do
      let cs := Bit.octets (← expand fuel w)
      let m ← get
      match Sum.evaluate m.value? cs with
      | .ok (n, settings) =>
        settings.forM fun (name, v) => Act.setVariable name (Octets.ofInt v)
        return Bit.ofValue isQuoted (Octets.ofInt n)
      | .error e =>
        refuse "arithmetic expression" (e.message ++ ": \"" ++ Octets.toText cs ++ "\"")

def transform (fuel : Nat) (isQuoted : Bool) (name : String) (value : Option Octets)
    (t : Transform) (w : Word) : Act (List Bit) :=
  match fuel with
  | 0 => Act.halt .endless
  | fuel + 1 => do
    let isMissing (orEmpty : Bool) := value.isNone || (orEmpty && value == some [])
    let same := Bit.ofValue isQuoted (value.getD [])
    let inPlace (bs : List Bit) := if isQuoted then .quotes :: bs else bs.map Bit.loosened
    match t with
    | .none => do
      let m ← get
      if value.isNone && m.stopsOnUnset then refuse name "parameter not set" else return same
    | .length => do
      let m ← get
      if value.isNone && m.stopsOnUnset then refuse name "parameter not set"
      else return Bit.ofValue isQuoted (Octets.ofNat (value.getD []).length)
    | .default orEmpty =>
      if isMissing orEmpty then return inPlace (← expand fuel w) else return same
    | .assign orEmpty =>
      if isMissing orEmpty then
        let cs := Bit.octets (← expand fuel w)
        if !isName name.toList then refuse name "bad variable name"
        Act.setVariable name cs
        return Bit.ofValue isQuoted cs
      else return same
    | .required orEmpty =>
      if isMissing orEmpty then
        let report := Octets.toText (Bit.octets (← expand fuel w))
        refuse name
          (if report = "" then "parameter not set" ++ if orEmpty then " or null" else ""
           else report)
      else return same
    | .alternative orEmpty =>
      if isMissing orEmpty then return if isQuoted then [.quotes] else []
      else return inPlace (← expand fuel w)
    | .dropStart longest =>
      let pattern := Bit.pattern (← expand fuel w)
      return Bit.ofValue isQuoted (Glob.dropStart pattern longest (value.getD []))
    | .dropEnd longest =>
      let pattern := Bit.pattern (← expand fuel w)
      return Bit.ofValue isQuoted (Glob.dropEnd pattern longest (value.getD []))

def expand : Nat → Word → Act (List Bit)
  | 0, _ => Act.halt .endless
  | _ + 1, [] => return []
  | fuel + 1, p :: ps => do
    let bs ← expandPart fuel p
    return bs ++ (← expand fuel ps)

def fields : Nat → List Word → Act (List Octets)
  | 0, _ => Act.halt .endless
  | _ + 1, [] => return []
  | fuel + 1, w :: ws => do
    let bs ← expand fuel w
    let m ← get
    let fs := Field.cut m.separators bs
    let names :=
      if m.keepsPatterns then fs.map Field.octets
      else fs.flatMap (Field.names m.tree m.directory)
    return names ++ (← fields fuel ws)

def assignAll : Nat → List (String × Word) → Act (List (String × Octets))
  | 0, _ => Act.halt .endless
  | _ + 1, [] => return []
  | fuel + 1, (name, w) :: rest => do
    let cs := Bit.octets (← expand fuel w)
    Act.setVariable name cs
    return (name, cs) :: (← assignAll fuel rest)

def redirectAll : Nat → List Redirect → Act Bool
  | 0, _ => Act.halt .endless
  | _ + 1, [] => return true
  | fuel + 1, .to n kind w :: rest => do
    let target := Bit.octets (← expand fuel w)
    if ← redirectTo n kind target then redirectAll fuel rest else return false

/-- Runs a script line by line, each one before the next one is read; whether there was any. More may come
from an open source. -/
def runLines (fuel : Nat) (source? : Option Nat) (cs : Octets) : Act Bool :=
  match fuel with
  | 0 => Act.halt .endless
  | fuel + 1 => do
    match firstLine cs, source? with
    | .error e, none =>
      modify fun m => { m with line := m.lines - e.left + 1 }
      Act.fail ("Syntax error: " ++ e.text)
    | .ok none, none => return false
    | .error _, some k | .ok none, some k => Act.starve k
    | .ok (some (s, rest)), source? =>
      execute fuel s
      let _ ← runLines fuel source? rest
      return true

/-- Runs a script in the running interpreter. One without commands succeeds. -/
def evaluate (fuel : Nat) (cs : Octets) : Act Unit :=
  match fuel with
  | 0 => Act.halt .endless
  | fuel + 1 => withLines (cs.count '\n') do
    if !(← runLines fuel none cs) then Act.setStatus 0

/-- Runs a script as all that an interpreter does. -/
def runAll (fuel : Nat) (cs : Octets) (source? : Option Nat) : Act Unit :=
  match fuel with
  | 0 => Act.halt .endless
  | fuel + 1 => ending fuel (withLines (cs.count '\n') do
    let _ ← runLines fuel source? cs)

def runFile (fuel : Nat) (path : Octets) (args : List Octets) : Act Unit :=
  match fuel with
  | 0 => Act.halt .endless
  | fuel + 1 => do
    let text := Octets.toText path
    match ← Act.readFile text with
    | .ok cs =>
      modify fun m => { m with name := path, arguments := args }
      runAll fuel cs none
    | .error .isDirectory => return ()
    | .error e => Act.fail (openFailure "open" "No such file" text e)

/-- Runs the interpreter: on a script as argument, in a file, or on its input. -/
def interpret (fuel : Nat) (args : List Octets) : Act Unit :=
  match fuel with
  | 0 => Act.halt .endless
  | fuel + 1 => do
    modify fun m => { m with line := 0 }
    let (i, operands) ← startOptions ⟨false, false⟩ (args.length + 1) args
    match i.takesText, operands with
    | true, [] => Act.fail "-c requires an argument"
    | true, text :: rest =>
      modify fun m => { m with name := rest.head?.getD m.name, arguments := rest.tail }
      runAll fuel text none
    | false, path :: rest =>
      if i.readsInput then
        modify fun m => { m with arguments := operands }
        runInput fuel
      else runFile fuel path rest
    | false, [] => runInput fuel

def runInput (fuel : Nat) : Act Unit :=
  match fuel with
  | 0 => Act.halt .endless
  | fuel + 1 => do
    match ← Act.channel 0 with
    | .source k =>
      let (cs, more) ← Act.unread k
      Act.setUnread k []
      runAll fuel cs (if more then some k else none)
    | _ => return ()

/-- Runs an action and then the script that is set to run at the end. -/
def ending (fuel : Nat) (act : Act Unit) : Act Unit :=
  match fuel with
  | 0 => Act.halt .endless
  | fuel + 1 => do
    let r ← Act.attempt act
    let last? := find? 0 (← get).traps
    let run (last : Octets) : Act Unit := do
      modify fun m => { m with traps := m.traps.filter fun (n, _) => n != 0, command := "" }
      let status ← Act.status
      evaluate fuel last
      Act.halt (.exit (.code status))
    match r, last? with
    | .error (.exit (.code n)), some last =>
      Act.setStatus n
      run last
    | .error .failed, some last =>
      Act.setStatus 2
      run last
    | .ok (), some last | .error .finish, some last => run last
    | .ok (), none => return ()
    | .error h, _ => Act.halt h

/-- Goes on as a program of some name that is there. -/
def runProgram (fuel : Nat) (name : Octets) (args : List Octets) : Act Unit :=
  match fuel with
  | 0 => Act.halt .endless
  | fuel + 1 => do
    modify fun m => { m with name := name }
    match Program.search (← get) (Octets.toText name) with
    | .ok p => runKnown fuel p.base (p.front ++ args)
    | .error _ => Act.halt .failed

def runKnown (fuel : Nat) (base : String) (args : List Octets) : Act Unit :=
  match fuel with
  | 0 => Act.halt .endless
  | fuel + 1 => do
    if Program.interpreters.contains base then
      modify fun m => { m with isWordy := base == Program.wordyInterpreter }
      interpret fuel args
    else
      match Starter.byName? base with
      | some start => Act.setStatus (← start (fun name args => runProgram fuel name args) args)
      | none =>
        match Tool.byName? base with
        | some tool => Act.setStatus (← tool args)
        | none => Act.halt .failed

def call (fuel : Nat) (functions : Bool) (name : Octets) (args : List Octets) : Act Unit :=
  match fuel with
  | 0 => Act.halt .endless
  | fuel + 1 => do
    let m ← get
    let text := Octets.toText name
    match Command.meaning m functions text with
    | .function f => asFunction f args (execute fuel f.body)
    | .own => do
      match ← Act.attempt (asCommand text (callOwn fuel text args)) with
      | .ok () => return ()
      | .error .failed =>
        if specialCommands.contains text then Act.halt .failed else Act.setStatus 2
      | .error h => Act.halt h
    | .program _ => Act.apart (Act.become (runProgram fuel name args))
    | .missing e => do
      let (report, status) := Command.missingReport m text e
      Act.fault report
      Act.setStatus status

def callOwn (fuel : Nat) (name : String) (args : List Octets) : Act Unit :=
  match fuel with
  | 0 => Act.halt .endless
  | fuel + 1 => do
    match name with
    | "eval" => evaluate fuel (List.intercalate [' '] args)
    | "." | "source" =>
      match args with
      | [] => Act.fail "arg count"
      | path :: _ => runHere fuel path
    | "command" =>
      let options ← Builtin.ownOptions "pvV" "" args
      match options.lastOf? ['v', 'V'], options.operands with
      | _, [] => Act.setStatus 0
      | some letter, target :: _ => Act.setStatus (← Command.describe (letter == 'V') target)
      | none, target :: args => call fuel false target args
    | "exec" =>
      let options ← Builtin.ownOptions "" "" args
      match options.operands with
      | [] => return ()
      | target :: args => goOnAs fuel target args
    | "type" => Act.setStatus (← Command.describeAll args)
    | name =>
      let m ← get
      let own? := if m.isWordy && name = "echo" then some Tool.echo else Builtin.byName? name
      match own? with
      | some act => Act.setStatus (← act args)
      | none => Act.halt .failed

/-- Runs the script in a file in the running interpreter. -/
def runHere (fuel : Nat) (path : Octets) : Act Unit :=
  match fuel with
  | 0 => Act.halt .endless
  | fuel + 1 => do
    let m ← get
    let text := Octets.toText path
    let directories := ((find? "PATH" m.values).map (Tool.fieldsOf ':')).getD []
    let target? :=
      if path.contains '/' then some text
      else
        (directories.map fun d => Path.join (Octets.toText (if d.isEmpty then ['.'] else d)) text).find?
          fun p => m.tree.isFile (m.pathFrom p)
    match target? with
    | none => Act.fail (text ++ ": not found")
    | some target =>
      match ← Act.readFile target with
      | .ok cs =>
        match ← Act.attempt (asCommand target (evaluate fuel cs)) with
        | .ok () | .error .finish => return ()
        | .error h => Act.halt h
      | .error .isDirectory => Act.setStatus 0
      | .error e => Act.fail (openFailure "open" "No such file" target e)

/-- Goes on as another program, which the script does not outlive. -/
def goOnAs (fuel : Nat) (name : Octets) (args : List Octets) : Act Unit :=
  match fuel with
  | 0 => Act.halt .endless
  | fuel + 1 => do
    let m ← get
    match Program.search m (Octets.toText name) with
    | .ok _ =>
      Act.become (runProgram fuel name args)
      Act.halt (.exit (.code (← Act.status)))
    | .error e =>
      let (report, status) := Command.missingReport m (Octets.toText name) e
      Act.fault report
      Act.halt (.exit (.code status))

/-- Runs a command with settings in front of it. -/
def simpleCommand (fuel : Nat) (settings : List (String × Word)) (ws : List Word)
    (rs : List Redirect) : Act Unit :=
  match fuel with
  | 0 => Act.halt .endless
  | fuel + 1 => do
    let errors ← Act.channel 2
    modify fun m => { m with innerStatus := none }
    match ← fields fuel ws with
    | [] =>
      Act.withChannels (redirectAll fuel rs) do
        let set ← assignAll fuel settings
        if !set.isEmpty then showCommand errors set []
        Act.setStatus ((← get).innerStatus.getD 0)
    | name :: args =>
      let text := Octets.toText name
      let m ← get
      let isSpecial := specialCommands.contains text && (find? text m.functions).isNone
      let redirect : Act Bool := do
        if ← redirectAll fuel rs then return true
        else if isSpecial then Act.halt .failed
        else return false
      if text = "exec" ∧ args = [] then
        if ← redirect then Act.setStatus 0
      else
        let names := settings.map Prod.fst
        let run : Act Unit := do
          let set ← assignAll fuel settings
          showCommand errors set (name :: args)
          modify fun m => { m with exported := names ++ m.exported }
          call fuel true name args
        Act.withChannels redirect (if isSpecial then run else restoring names run)

/-- Runs the scripts of signals that have come; the status stays as it is. -/
def answerSignals (fuel : Nat) (signals : List Nat) : Act Unit :=
  match fuel, signals with
  | 0, _ => Act.halt .endless
  | _ + 1, [] => return ()
  | fuel + 1, n :: ns => do
    let m ← get
    evaluate fuel ((find? n m.traps).getD [])
    Act.setStatus m.status
    answerSignals fuel ns

/-- Runs a pipe. Its commands run at the same time, so the longer one tells how long it takes; one
that writes without end is stopped when nobody reads what it writes. -/
def pipeBoth (fuel : Nat) (left right : Script) : Act Unit :=
  match fuel with
  | 0 => Act.halt .endless
  | fuel + 1 => do
    let start := (← get).clock
    let before := (← get).channels
    let (cs, h) ← Act.captureAll (Act.apart (ending fuel (execute fuel left)))
    let flows := h == some .endless && !cs.isEmpty
    if !flows then h.forM Act.halt
    let stopped := (← get).clock
    let leftEnd := if flows then start else stopped
    modify fun m => { m with clock := start }
    let source ← Act.newSource cs flows
    Act.setChannel 0 source
    let r ← Act.attempt (Act.apart (ending fuel (execute fuel right)))
    modify fun m => { m with channels := before, clock := max m.clock leftEnd }
    match r with
    | .ok () => return ()
    | .error .waiting => Act.halt (if flows then .endless else .waiting)
    | .error h => Act.halt h

def runBehind (fuel : Nat) (s : Script) : Act Unit :=
  match fuel with
  | 0 => Act.halt .endless
  | fuel + 1 => do
    let before ← get
    let number := before.number + (← Act.freshNumber)
    let r ← Act.attempt (Act.process do
      Act.setChannel 0 .null
      modify fun m => { m with isBehind := true }
      ending fuel (execute fuel s))
    modify fun m =>
      let index := (before.jobs.map Job.index).foldl max 0 + 1
      let job : Job := match r with
        | .ok status => ⟨number, index, some m.clock, status⟩
        | .error _ => ⟨number, index, none, .code 0⟩
      let added := m.written.length - before.written.length
      let tagged := (m.written.take added).map fun c => { c with job := c.job.or (some number) }
      { m with
        clock := before.clock
        channels := before.channels
        directory := before.directory
        isBehind := before.isBehind
        isApart := before.isApart
        jobs := job :: before.jobs
        written := tagged ++ m.written.drop added }
    Act.setStatus 0

def forWords (fuel : Nat) (name : String) (body : Script) (ws : List Octets) : Act Unit :=
  match fuel, ws with
  | 0, _ => Act.halt .endless
  | _ + 1, [] => return ()
  | fuel + 1, w :: ws => do
    Act.setVariable name w
    if ← round (execute fuel body) then forWords fuel name body ws

/-- Runs the body of a loop as long as its condition asks for it; `last` is the status of the last
round. -/
def whileHolds (fuel : Nat) (untilTrue : Bool) (condition body : Script) (last : Nat) : Act Unit :=
  match fuel with
  | 0 => Act.halt .endless
  | fuel + 1 => do
    let enters ← round (unwatched (execute fuel condition))
    let holds := ((← Act.status) == 0) != untilTrue
    if enters && holds then
      let goesOn ← round (execute fuel body)
      if goesOn then whileHolds fuel untilTrue condition body (← Act.status)
    else Act.setStatus last

def describesAny (fuel : Nat) (cs : Octets) (ws : List Word) : Act Bool :=
  match fuel, ws with
  | 0, _ => Act.halt .endless
  | _ + 1, [] => return false
  | fuel + 1, w :: ws => do
    let pattern := Bit.pattern (← expand fuel w)
    if Glob.describes pattern cs then return true else describesAny fuel cs ws

/-- Runs the first case that describes the octets. -/
def chooseCase (fuel : Nat) (cs : Octets) (cases : List (List Word × Script)) : Act Unit :=
  match fuel, cases with
  | 0, _ => Act.halt .endless
  | _ + 1, [] => Act.setStatus 0
  | fuel + 1, (patterns, s) :: rest => do
    if ← describesAny fuel cs patterns then
      match s with
      | .nothing => Act.setStatus 0
      | s => execute fuel s
    else chooseCase fuel cs rest

def execute : Nat → Script → Act Unit
  | 0, _ => Act.halt .endless
  | fuel + 1, s =>
    match s with
    | .nothing => return ()
    | .simple left settings ws rs => do
      modify fun m => { m with line := m.lines - left + 1 }
      simpleCommand fuel settings ws rs
      answerSignals fuel (← comeSignals)
      checkFailure
    | .redirected s rs => Act.withChannels (redirectAll fuel rs) (execute fuel s)
    | .pipe left right => do
      pipeBoth fuel left right
      answerSignals fuel (← comeSignals)
      checkFailure
    | .negated s => do
      unwatched (execute fuel s)
      Act.setStatus (if (← Act.status) = 0 then 1 else 0)
    | .andThen left right => do
      unwatched (execute fuel left)
      if (← Act.status) = 0 then execute fuel right
    | .orElse left right => do
      unwatched (execute fuel left)
      if (← Act.status) ≠ 0 then execute fuel right
    | .next first second => do
      execute fuel first
      execute fuel second
    | .background s => runBehind fuel s
    | .ifThen condition yes no => do
      unwatched (execute fuel condition)
      if (← Act.status) = 0 then execute fuel yes
      else
        match no with
        | .nothing => Act.setStatus 0
        | no => execute fuel no
    | .loop untilTrue condition body => whileHolds fuel untilTrue condition body 0
    | .forEach name overArguments ws body => do
      let ws ← if overArguments then pure (← get).arguments else fields fuel ws
      Act.setStatus 0
      forWords fuel name body ws
    | .choose w cases => do
      let cs := Bit.octets (← expand fuel w)
      chooseCase fuel cs cases
    | .subshell s => do
      Act.apart (ending fuel (execute fuel s))
      answerSignals fuel (← comeSignals)
      checkFailure
    | .define name left body => do
      modify fun m => { m with functions := upsert name ⟨left, body⟩ m.functions }
      Act.setStatus 0

end

end Script

end Punctual.Shell
