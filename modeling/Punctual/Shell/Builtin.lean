import Punctual.Shell.Field
import Punctual.Shell.Parse
import Punctual.Shell.Tool

/-!
# Commands of the interpreter itself

These commands change the interpreter that runs them: its variables and arguments, or where it goes
on. None of them runs another script.
-/

namespace Punctual.Shell

def Machine.flagLetters (m : Machine) : Octets :=
  [(m.stopsOnUnset, 'u'), (m.exportsAll, 'a'), (m.keepsFiles, 'C'), (m.showsCommands, 'x'),
    (m.keepsPatterns, 'f'), (m.stopsOnFailure, 'e')].filterMap
    fun (isOn, c) => if isOn then some c else none

def Machine.value? (m : Machine) (name : String) : Option Octets :=
  match name with
  | "@" | "*" =>
    if m.arguments.isEmpty then none else some (List.intercalate [' '] m.arguments)
  | "#" => some (Octets.ofNat m.arguments.length)
  | "?" => some (Octets.ofNat m.status)
  | "$" => some (Octets.ofNat m.number)
  | "!" => some ((m.jobs.head?.map fun j => Octets.ofNat j.number).getD [])
  | "-" => some m.flagLetters
  | name =>
    match Text.nat? name.toList with
    | some 0 => some m.name
    | some n => m.arguments[n - 1]?
    | none => find? name m.values

def Machine.separators (m : Machine) : Octets :=
  (m.value? "IFS").getD Field.defaultSeparators

namespace Builtin

/-- The options of a command of the interpreter, and what stands behind them. -/
def ownOptions (flags valued : String) (args : List Octets) : Act Tool.Call := do
  match Tool.Options.read { flags, valued, stopsAtOperand := true } args with
  | .ok call => return call
  | .error (.unknownLetter c) => Act.fail ("Illegal option -" ++ Octets.toText [c])
  | .error (.missingValue c) => Act.fail ("No arg for -" ++ Octets.toText [c] ++ " option")
  | .error _ => Act.fail "Illegal option --"

def number (arg : Octets) : Act Nat :=
  match Text.nat? arg with
  | some n => return n
  | none => Act.fail ("Illegal number: " ++ Octets.toText arg)

/-- The number in the first argument of a command, or a number in its place. -/
def count (default : Nat) : List Octets → Act Nat
  | [] => return default
  | arg :: _ => number arg

def exit : Tool := fun args => do
  let n ← count (← Act.status) args
  Act.halt (.exit (.code (n % 256)))

def finish : Tool := fun args => do
  let n ← count (← Act.status) args
  Act.setStatus (n % 256)
  Act.halt .finish

def shift : Tool := fun args => do
  let m ← get
  let n ← count 1 args
  if m.arguments.length < n then Act.fail "can't shift that many"
  else
    set { m with arguments := m.arguments.drop n }
    return 0

/-- The flags of the interpreter by their names. -/
def flagNames : List (String × Char) :=
  [("errexit", 'e'), ("noglob", 'f'), ("ignoreeof", 'I'), ("monitor", 'm'), ("noexec", 'n'),
    ("xtrace", 'x'), ("verbose", 'v'), ("vi", 'V'), ("emacs", 'E'), ("noclobber", 'C'),
    ("allexport", 'a'), ("notify", 'b'), ("nounset", 'u')]

/-- Turns a flag of the interpreter on or off; whether there is such a flag. -/
def setFlag (on : Bool) (letter : Char) : Act Bool := do
  if (flagNames.map Prod.snd).contains letter then
    modify fun m => match letter with
      | 'e' => { m with stopsOnFailure := on }
      | 'u' => { m with stopsOnUnset := on }
      | 'x' => { m with showsCommands := on }
      | 'f' => { m with keepsPatterns := on }
      | 'C' => { m with keepsFiles := on }
      | 'a' => { m with exportsAll := on }
      | _ => m
    return true
  else return false

/-- Turns flags on or off, as far as they are flags; the first that is none. -/
def setFlags (on : Bool) : Octets → Act (Option Char)
  | [] => return none
  | c :: cs => do
    if ← setFlag on c then setFlags on cs else return some c

def inQuotes (cs : Octets) : Octets :=
  ['\x27'] ++ cs.flatMap (fun c => if c = '\x27' then "'\"'\"'".toList else [c]) ++ ['\x27']

/-- The values of some variables, sorted by their names, as they are set behind some word. -/
def settingsOf (word : String) (values : List (String × Octets)) : Octets :=
  let sorted := values.mergeSort fun a b => a.1 ≤ b.1
  sorted.flatMap fun (name, value) =>
    Octets.ofText (word ++ name ++ "=") ++ inQuotes value ++ ['\n']

/-- Sets flags, or replaces the arguments; without any, all variables are shown. -/
def setArguments (args : List Octets) : Act Nat := do
  if args.isEmpty then Act.write (settingsOf "" (← get).values) else go args
where
  /-- Goes through the arguments. -/
  go : List Octets → Act Nat
  | [] => return 0
  | [sign, 'o'] :: args => do
    if sign = '-' || sign = '+' then
      match args with
      | [] => return 0
      | name :: args =>
        match find? (Octets.toText name) flagNames with
        | some c => do
          let _ ← setFlag (sign = '-') c
          go args
        | none => Act.fail ("Illegal option " ++ sign.toString ++ "o " ++ Octets.toText name)
    else
      modify fun m => { m with arguments := [sign, 'o'] :: args }
      return 0
  | ['-', '-'] :: args => do
    modify fun m => { m with arguments := args }
    return 0
  | arg :: args => do
    match arg with
    | '-' :: c :: flags =>
      match ← setFlags true (c :: flags) with
      | none => go args
      | some c => Act.fail ("Illegal option -" ++ c.toString)
    | '+' :: c :: flags =>
      match ← setFlags false (c :: flags) with
      | none => go args
      | some c => Act.fail ("Illegal option +" ++ c.toString)
    | _ =>
      modify fun m => { m with arguments := arg :: args }
      return 0

/-- Cuts a line for some names: the last one gets all that is left. Marked octets separate
nothing. -/
def assign (separators : Octets) (line : Field) : List String → Act Unit
  | [] => return ()
  | name :: names => do
    let isBlank (x : Glob.Marked) := !x.2 && x.1 ∈ separators && isLayout x.1
    let isEnd (x : Glob.Marked) := !x.2 && x.1 ∈ separators
    let line := line.dropWhile isBlank
    if names.isEmpty then
      let kept : Field := (line.reverse.dropWhile isBlank).reverse
      let inner := kept.dropLast
      let single := kept.getLast?.any isEnd && !inner.any isEnd
      Act.setVariable name (Field.octets (if single then inner else kept))
    else
      Act.setVariable name (Field.octets (line.takeWhile fun x => !isEnd x))
      let rest := (line.dropWhile fun x => !isEnd x)
      let rest := match rest with
        | [] => []
        | x :: xs =>
          if isBlank x then
            match xs.dropWhile isBlank with
            | [] => []
            | y :: ys => if isEnd y then ys else y :: ys
          else xs
      assign separators rest names

/-- A line with its backslashes read, and whether the last one joins the next line to it. -/
def unescaped : Octets → Field × Bool
  | [] => ([], false)
  | ['\\'] => ([], true)
  | '\\' :: c :: cs =>
    let (f, joins) := unescaped cs
    ((c, true) :: f, joins)
  | c :: cs =>
    let (f, joins) := unescaped cs
    ((c, false) :: f, joins)

/-- The next line of input with its backslashes read, and whether it was ended. -/
def joinedLine : Nat → Act (Field × Bool)
  | 0 => return ([], false)
  | fuel + 1 => do
    let (cs, ended) ← Act.readLine
    let (f, joins) := unescaped cs
    if ended && joins then
      let (more, ended) ← joinedLine fuel
      return (f ++ more, ended)
    else return (f, ended)

/-- A word that has to be the name of a variable. -/
def variableName (word : Octets) : Act String := do
  if isName word then return Octets.toText word
  else Act.fail (Octets.toText word ++ ": bad variable name")

def read : Tool := fun args => do
  let call ← ownOptions "r" "p" args
  if call.operands.isEmpty then Act.fail "arg count"
  let names ← call.operands.mapM variableName
  let (line, ended) ←
    if call.has 'r' then do
      let (cs, ended) ← Act.readLine
      pure (cs.map (·, false), ended)
    else joinedLine 1000000
  let m ← get
  assign m.separators line names
  return if ended then 0 else 1

def unset : Tool := fun args => do
  let call ← ownOptions "vf" "" args
  if call.lastOf? ['v', 'f'] = some 'f' then
    let names := call.operands.map Octets.toText
    modify fun m => { m with functions := m.functions.filter fun (n, _) => !(n ∈ names) }
  else
    let names ← call.operands.mapM variableName
    Act.unsetVariables names
  return 0

/-- Sets the variables that arguments with equality signs name; gives all names. -/
def declare (args : List Octets) : Act (List String) :=
  args.mapM fun arg => do
    match Text.cutAt? '=' arg with
    | some (word, value) =>
      let name ← variableName word
      Act.setVariable name value
      return name
    | none => variableName arg

/-- Gives a property to variables, or shows those that have it. -/
def mark (word : String) (marked : Machine → List String)
    (adds : List String → Machine → Machine) : Tool := fun args => do
  let call ← ownOptions "p" "" args
  if call.operands.isEmpty || call.has 'p' then
    let m ← get
    Act.write (settingsOf word (m.values.filter fun (n, _) => (marked m).contains n))
  else
    let names ← declare call.operands
    modify (adds names)
    return 0

def exportNames : Tool :=
  mark "export " (·.exported) fun names m => { m with exported := names ++ m.exported }

def keep : Tool :=
  mark "readonly " (·.fixed) fun names m => { m with fixed := names ++ m.fixed }

/-- Sets variables that are as before when the function ends. -/
def localNames : Tool := fun args => do
  if !(← get).isInFunction then Act.fail "not in a function"
  let before := (← get).values
  let names ← declare args
  modify fun m => { m with outer := names.map (fun n => (n, find? n before)) ++ m.outer }
  return 0

/-! ## Options -/

/-- Where a search for options goes on: the number of the next argument, and the place in the one before
if that is not searched to its end. -/
def optionStart (m : Machine) : Nat × Option Nat :=
  let given := ((m.value? "OPTIND").bind Text.nat?).getD 1
  if given = m.optionPlace.1 then m.optionPlace else (given, none)

/-- What a search for options finds. -/
inductive FoundOption
  | none
  /-- An option, with its value if it has one. -/
  | known (letter : Char) (value : Octets)
  | unknown (letter : Char)
  | missingValue (letter : Char)

/-- Looks up an option in a list of letters; a colon behind a letter asks for a value. `rest` is what
stands behind the letter in its argument. -/
def lookUpOption (letters : Octets) (c : Char) (rest : Octets) (next : List Octets) :
    FoundOption × Option Octets × Nat :=
  match (letters.dropWhile (· = ':')).dropWhile (· ≠ c) with
  | [] => (.unknown c, some rest, 0)
  | _ :: ':' :: _ =>
    if !rest.isEmpty then (.known c rest, none, 0)
    else
      match next with
      | [] => (.missingValue c, none, 0)
      | v :: _ => (.known c v, none, 1)
  | _ :: _ => (.known c [], some rest, 0)

/-- Takes the next option from arguments; it says where the search goes on. -/
def nextOption (letters : Octets) (args : List Octets) (start : Nat × Option Nat) :
    FoundOption × (Nat × Option Nat) :=
  let (index, offset?) := start
  let current := (offset?.bind fun offset => (args[index - 2]?).map (·.drop offset)).getD []
  let (body?, index) : Option Octets × Nat :=
    if !current.isEmpty then (some current, index)
    else
      match args[index - 1]? with
      | some ('-' :: c :: cs) =>
        if c = '-' && cs.isEmpty then (none, index + 1) else (some (c :: cs), index + 1)
      | _ => (none, index)
  match body? with
  | none | some [] => (.none, (index, none))
  | some (c :: rest) =>
    let (found, left?, used) := lookUpOption letters c rest (args.drop (index - 1))
    let offset? := left?.bind fun left =>
      (args[index - 2]?).map fun word => word.length - left.length
    (found, (index + used, offset?))

/-- Takes the next option from the arguments into variables. -/
def getOptions : Tool := fun args => do
  match args with
  | letters :: name :: given => do
    let m ← get
    let words := if given.isEmpty then m.arguments else given
    let (found, (index, offset?)) := nextOption letters words (optionStart m)
    let quiet := letters.head? = some ':'
    let name := Octets.toText name
    let mark : Char ← match found with
      | .none => pure '?'
      | .known c v => do
        Act.setVariable "OPTARG" v
        pure c
      | .unknown c => do
        if quiet then Act.setVariable "OPTARG" [c]
        else
          Act.unsetVariables ["OPTARG"]
          Act.complain ("Illegal option -" ++ Octets.toText [c])
        pure '?'
      | .missingValue c =>
        if quiet then do
          Act.setVariable "OPTARG" [c]
          pure ':'
        else do
          Act.unsetVariables ["OPTARG"]
          Act.complain ("No arg for -" ++ Octets.toText [c] ++ " option")
          pure '?'
    Act.setVariable "OPTIND" (Octets.ofNat index)
    Act.setVariable name [mark]
    modify fun m => { m with optionPlace := (index, offset?) }
    match found with
    | .none => return 1
    | _ => return 0
  | _ => Act.fail "Usage: getopts optstring var [arg...]"

/-! ## Surroundings -/

/-- The path of the working directory if the run started in no known one. -/
def workPath : String := "/work"

def directoryPath (directory : Place) : String :=
  if directory = [] then workPath
  else if directory.head? = some "/" then directory.path
  else Path.join workPath directory.path

/-- Goes to a directory; a hyphen stands for the one before, whose path is then printed. -/
def changeDirectory : Tool := fun args => do
  let call ← ownOptions "LP" "" args
  let m ← get
  let given := call.operands.head?.getD ((m.value? "HOME").getD [])
  let target := if given = ['-'] then (m.value? "OLDPWD").getD [] else given
  let text := Octets.toText target
  let path :=
    match Text.dropStart? (workPath ++ "/").toList (text ++ "/").toList with
    | some rest => if text = workPath then "." else "./" ++ String.ofList rest
    | none => m.pathFrom text
  if text = "" then return 0
  match m.tree.isDirectory path, m.tree.locate path with
  | true, .ok place =>
    set { m with directory := place }
    Act.setVariable "OLDPWD" (Octets.ofText (directoryPath m.directory))
    Act.setVariable "PWD" (Octets.ofText (directoryPath place))
    if given = ['-'] then Act.write (Octets.ofText (directoryPath place) ++ ['\n'])
    else return 0
  | _, _ => Act.fail ("can't cd to " ++ text)

def printDirectory : Tool := fun args => do
  let _ ← ownOptions "LP" "" args
  Act.write (Octets.ofText (directoryPath (← get).directory) ++ ['\n'])

def maskModes : Tool := fun args => do
  let call ← ownOptions "S" "" args
  match call.operands with
  | [] => Act.write (if call.has 'S' then "u=rwx,g=rx,o=rx\n".toList else "0022\n".toList)
  | mode :: _ =>
    if mode.all Char.isDigit || mode.contains '=' || mode.contains '+' || mode.contains '-' then
      return 0
    else Act.fail ("Illegal mode: " ++ Octets.toText mode)

/-- Lets time pass up to some time, or to a signal that a script answers. -/
def passTo (time : Nat) : Act (Option Nat) := do
  let m ← get
  let comes (a : Arrival) : Bool :=
    a.isAnswered && a.target = m.number && m.clock < a.time && a.time < time
  match (m.arrivals.filter comes).mergeSort fun a b => a.time ≤ b.time with
  | a :: _ =>
    Act.pass (a.time - m.clock)
    return some a.signal
  | [] =>
    Act.pass (time - m.clock)
    return none

/-- Waits for the end of a command in the background. -/
def waitFor (j : Job) : Act Nat := do
  match j.ends with
  | none => Act.halt .endless
  | some time =>
    let before := (← get).clock
    match ← passTo time with
    | some n => return 128 + n
    | none =>
      match j.status with
      | .code n => return n
      | .signal n =>
        if before ≤ time then (Act.signalReport? n).forM Act.complain
        let known (k : Job) : Job :=
          if k.number = j.number then { j with status := .code (128 + n) } else k
        modify fun m => { m with jobs := m.jobs.map known }
        return 128 + n

/-- The command in the background that an argument names by its number, or by its place behind a percent
sign. -/
def job? (m : Machine) (arg : Octets) : Option Job :=
  match arg with
  | '%' :: index => m.jobs.find? fun j => Octets.ofNat j.index == index
  | arg => m.jobs.find? fun j => Octets.ofNat j.number == arg

/-- Waits for all commands in the background; the status if a signal comes before. -/
def waitAll : List Job → Act Nat
  | [] => return 0
  | j :: js => do
    match j.ends with
    | none => Act.halt .endless
    | some time =>
      match ← passTo time with
      | some n => return 128 + n
      | none => waitAll js

def wait : Tool := fun args => do
  let m ← get
  if args.isEmpty then waitAll m.jobs
  else
    let mut status := 0
    for arg in args do
      match job? (← get) arg, arg with
      | some j, _ => status ← waitFor j
      | none, '%' :: _ => Act.fail ("No such job: " ++ Octets.toText arg)
      | none, arg =>
        let _ ← number arg
        status := 127
    return status

/-- The state of a command in the background that has not ended. -/
def runningState : String := "Running"

def jobState (clock : Nat) (j : Job) : String :=
  if j.ends.all fun time => decide (clock < time) then runningState
  else
    match j.status with
    | .code 0 => "Done"
    | .code n => "Done(" ++ toString n ++ ")"
    | .signal n => (Act.signalReport? n).getD "Interrupt"

/-- Shows the commands in the background. Those that have ended are forgotten then. -/
def showJobs : Tool := fun args => do
  let call ← ownOptions "lp" "" args
  let m ← get
  let (running, lines) := m.jobs.foldl
    (fun (running, lines) j =>
      let state := jobState m.clock j
      let mark := if running = 0 then "+ " else if running = 1 then "- " else "  "
      let start := "[" ++ toString j.index ++ "] " ++ mark ++
        (if call.has 'l' then toString j.number ++ " " else "") ++ state
      let line := if call.has 'p' then toString j.number
        else start ++ String.ofList (List.replicate (33 - start.length) ' ')
      (if state = runningState then running + 1 else running, lines ++ [line.toList]))
    (0, ([] : List Octets))
  set { m with
    jobs := if running = 0 then [] else m.jobs.filter fun j => jobState m.clock j = runningState }
  Act.write (Tool.unlines lines)

def maxSignal : Nat := 64

/-- The signals by name; the name of zero is that of the end. -/
def signals : List (String × Nat) :=
  ("EXIT", 0) :: ("RTMIN", 34) :: ("RTMAX", maxSignal) :: signalNames.map fun (n, name) => (name, n)

/-- The name of a signal, as the interpreter shows it: real-time signals are counted from the nearer end,
and those that it knows no name of have their number. -/
def signalName (n : Nat) : String :=
  if n = 16 then "16"
  else
    match signals.find? fun (_, k) => k == n with
    | some (name, _) => name
    | none =>
      if 34 < n && n < 50 then "RTMIN+" ++ toString (n - 34)
      else if 50 ≤ n && n < maxSignal then "RTMAX-" ++ toString (maxSignal - n)
      else toString n

/-- The signal that an argument names, in whatever case, or gives by its number. -/
def signal? (cs : Octets) : Option Nat :=
  match Text.nat? cs with
  | some n => if n ≤ maxSignal then some n else none
  | none =>
    let name := Octets.toText (cs.map Char.toUpper)
    (List.range (maxSignal + 1)).find? fun n => signalName n == name

/-- Sets the script that runs when signals come, or at the end. -/
def setTrap (script : Octets) : List Octets → Act Nat
  | [] => return 0
  | condition :: conditions => do
    match signal? condition with
    | none =>
      Act.complain ("trap: " ++ Octets.toText condition ++ ": bad trap")
      return 1
    | some n =>
      let changed (traps : List (Nat × Octets)) :=
        if script = ['-'] then traps.filter fun (k, _) => k != n else upsert n script traps
      modify fun m => { m with
        traps := changed m.traps
        answers := if m.isApart then m.answers else changed m.answers }
      setTrap script conditions

def trapLine (n : Nat) (script : Octets) : Octets :=
  "trap -- ".toList ++ inQuotes script ++ (' ' :: Octets.ofText (signalName n)) ++ ['\n']

/-- Sets the script that runs when signals come, or at the end. A condition alone takes it away, and
without any the scripts are shown. -/
def trap : List Octets → Act Nat
  | [] => do
    let m ← get
    let sorted := m.traps.mergeSort fun a b => a.1 ≤ b.1
    Act.write (sorted.flatMap fun (n, script) => trapLine n script)
  | ['-', '-'] :: args => trap args
  | [condition] => setTrap ['-'] [condition]
  | script :: conditions => setTrap script conditions

def sureSignal : Nat := 9

/-- The signals that do nothing to a program which does not wait for them. -/
def harmlessSignals : List Nat := [17, 18, 23, 28]

/-- The signals that make a program stand still. -/
def stoppingSignals : List Nat := [19, 20, 21, 22]

def killUsage : String :=
  "Usage: kill [-s sigspec | -signum | -sigspec] [pid | job]... or\nkill -l [exitstatus]"

def receive (n : Nat) : Act Unit := do
  let m ← get
  let answer? := if n = sureSignal then none else find? n m.answers
  let isNothing := n = 0 || answer? = some [] || (answer?.isNone && harmlessSignals.contains n)
  if isNothing then return ()
  else if m.isBehind || answer?.isSome then
    set { m with arrivals := ⟨m.clock, n, m.number, answer?.isSome⟩ :: m.arrivals }
  else if stoppingSignals.contains n then Act.halt .endless
  else Act.halt (.exit (.signal n))

/-- A command in the background gets a signal: what it would have written later is not written. -/
def endJob (j : Job) (n : Nat) : Act Unit := do
  let m ← get
  let isOver := j.ends.any fun time => decide (time ≤ m.clock)
  if n = 0 || isOver || harmlessSignals.contains n || stoppingSignals.contains n then return ()
  else
    let ended (k : Job) : Job :=
      if k.number = j.number then { j with ends := some m.clock, status := .signal n } else k
    set { m with
      jobs := m.jobs.map ended
      written := m.written.filter fun c => c.job != some j.number || c.time ≤ m.clock }

/-- Sends a signal to the processes of some numbers, of which only the script itself and its commands in
the background are there. -/
def sendAll (n : Nat) : List Octets → Act Nat
  | [] => return 0
  | target :: targets => do
    let m ← get
    let job? := (job? m target).filter fun j =>
      target.head? != some '%' && j.ends.all fun time => decide (m.clock ≤ time)
    let k ← if target.head? = some '%' then pure 0 else number target
    match job? with
    | some j =>
      endJob j n
      sendAll n targets
    | none =>
      if k = m.number then
        receive n
        sendAll n targets
      else
        Act.fault "No such process\n"
        let _ ← sendAll n targets
        return 1

/-- The signal of a name, or the number of one. -/
def knownSignal (name : Octets) : Act Nat :=
  match signal? name with
  | some n => return n
  | none => Act.fail ("invalid signal number or name: " ++ Octets.toText name)

/-- Shows the names of signals, or those of some statuses. -/
def listSignals : List Octets → Act Nat
  | [] =>
    let names := (List.range' 1 maxSignal).map signalName
    Act.write (Tool.unlines (("0" :: names).map Octets.ofText))
  | status :: _ => do
    let n ← number status
    let k := if 128 < n then n - 128 else n
    if 0 < k && k ≤ maxSignal then Act.write (Octets.ofText (signalName k ++ "\n"))
    else Act.fail ("invalid signal number or exit status: " ++ Octets.toText status)

def kill : Tool := fun args => do
  let send (n : Nat) (targets : List Octets) : Act Nat :=
    if targets.isEmpty then Act.fail killUsage else sendAll n targets
  match args with
  | ['-', '-'] :: rest => send 15 rest
  | ['-', 'l'] :: rest => listSignals rest
  | ['-', 's'] :: name :: rest => send (← knownSignal name) rest
  | ('-' :: name) :: rest =>
    match signal? name, name with
    | some n, _ => send n rest
    | none, 's' :: attached => send (← knownSignal attached) rest
    | none, letter :: _ => Act.fail ("Illegal option -" ++ letter.toString)
    | none, [] => Act.fail "Illegal number: -"
  | rest => send 15 rest

/-- Leaves loops, or goes on with their next round. Outside of loops this does nothing. -/
def leave (goesOn : Bool) : Tool := fun args => do
  let n ← count 1 args
  if n = 0 then Act.fail "Illegal number: 0"
  if (← get).loops = 0 then return 0
  Act.halt (.leave n goesOn)

/-- Shows how much the interpreter may use, which is not limited. -/
def showLimit : Tool := fun args => do
  let call ← ownOptions "HSatfdsmcnpvwlr" "" args
  if call.operands.isEmpty && !call.has 'c' then Act.write "unlimited\n".toList
  else if call.operands.isEmpty then Act.write "0\n".toList
  else return 0

def noJob : Tool := fun _ => Act.fail "No current job"

def otherNames (missing : Octets → Act Unit) : Tool := fun args => do
  let asked := args.filter fun a => !a.contains '='
  asked.forM missing
  return if asked.isEmpty then 0 else 1

def ignore (status : Nat) : Tool := fun _ => return status

def byName? (name : String) : Option Tool :=
  match name with
  | ":" | "true" | "hash" => some (ignore 0)
  | "jobs" => some showJobs
  | "false" => some (ignore 1)
  | "exit" => some exit
  | "return" => some finish
  | "break" => some (leave false)
  | "continue" => some (leave true)
  | "shift" => some shift
  | "set" => some setArguments
  | "read" => some read
  | "unset" => some unset
  | "export" => some exportNames
  | "readonly" => some keep
  | "local" => some localNames
  | "getopts" => some getOptions
  | "cd" | "chdir" => some changeDirectory
  | "pwd" => some printDirectory
  | "umask" => some maskModes
  | "ulimit" => some showLimit
  | "trap" => some trap
  | "wait" => some wait
  | "kill" => some kill
  | "fg" | "bg" => some noJob
  | "alias" => some (otherNames fun n => Act.complain ("alias: " ++ Octets.toText n ++ " not found"))
  | "unalias" =>
    some (otherNames fun n => Act.complain ("unalias: " ++ Octets.toText n ++ " not found"))
  | "times" => some fun _ =>
    Act.write "0m0.000000s 0m0.000000s\n0m0.000000s 0m0.000000s\n".toList
  | "echo" => some Tool.echoEscaped
  | "printf" => some Tool.printfOwn
  | "test" => some Tool.testOwn
  | "[" => some Tool.bracketOwn
  | _ => none

end Builtin

end Punctual.Shell
