import Punctual.Shell.Find
import Punctual.Shell.Record.Run

/-!
# Tools that start programs

These tools start the program that their arguments name: in changed surroundings, for some time, or
again and again with arguments from their input.
-/

namespace Punctual.Shell

namespace Starter

/-- Goes on as another program; what is said if that is not there. -/
def goOn (run : Runner) (report : String → IoError → String) (program : Octets)
    (args : List Octets) : Act Nat := do
  match Program.search (← get) (Octets.toText program) with
  | .error e =>
    Act.complain (report (Octets.toText program) e)
    return if e = .notFound then 127 else 126
  | .ok _ =>
    run program args
    Act.status

/-- What a tool says about a program that it cannot run. -/
def runReport (tool : String) (program : String) (e : IoError) : String :=
  tool ++ ": failed to run command '" ++ program ++ "': " ++ Tool.reason e

/-! ## Surroundings -/

def envOptions : Tool.Options where
  flags := "i0v"
  valued := "uCS"
  names := [("ignore-environment", 'i'), ("null", '0'), ("unset", 'u'), ("chdir", 'C'),
    ("split-string", 'S'), ("debug", 'v')]
  stopsAtOperand := true

/-- Goes to a directory; the reason if that is not possible. -/
def goTo (path : String) : Act (Option IoError) := do
  let m ← get
  match m.tree.at? (m.pathFrom path), m.tree.locate (m.pathFrom path) with
  | .ok .directory, .ok place =>
    set { m with directory := place }
    return none
  | .ok (.file _), _ => return some .notDirectory
  | .error e, _ | _, .error e => return some e

/-- Gives variables to a program that the settings in front of it name, or shows all that are given. -/
def env (run : Runner) : Tool := Tool.withOptions "env" envOptions (fun call => do
  let given := ((call.value? 'S').map words).getD [] ++
    call.operands
  let (bare, given) := match given with
    | ['-'] :: rest => (true, rest)
    | rest => (call.has 'i', rest)
  if bare then modify fun m => { m with values := [], exported := [] }
  let dropped := (call.values 'u').map Octets.toText
  modify fun m => { m with values := m.values.filter fun (n, _) => !dropped.contains n }
  let isSetting (a : Octets) : Bool := a.contains '='
  for word in given.takeWhile isSetting do
    let name := Octets.toText (word.takeWhile (· ≠ '='))
    modify fun m => { m with
      values := upsert name ((word.dropWhile (· ≠ '=')).drop 1) m.values
      exported := name :: m.exported }
  match call.value? 'C' with
  | some path =>
    if let some e ← goTo (Octets.toText path) then
      return ← Tool.refuse "env" ("cannot change directory to " ++ Tool.shown path ++ ": " ++
        Tool.reason e) 125
  | none => pure ()
  match given.dropWhile isSetting with
  | [] =>
    let m ← get
    let shown := m.values.filter fun (n, _) => m.exported.contains n
    Act.write (Tool.unrecords (call.has '0')
      (shown.map fun (n, v) => Octets.ofText n ++ ['='] ++ v))
  | program :: args =>
    goOn run (fun name e => "env: '" ++ name ++ "': " ++ Tool.reason e) program args) 125

def nohup (run : Runner) : Tool :=
  Tool.withOptions "nohup" { flags := "", stopsAtOperand := true } (fun call =>
    match call.operands with
    | [] => Tool.decline "nohup" "missing operand" 125
    | program :: args => goOn run (runReport "nohup") program args) 125

/-- The options of `nice`; a number may stand behind the hyphen. -/
def niceArguments : List Octets → List Octets
  | ('-' :: c :: cs) :: args =>
    if c.isDigit || (c = '-' && cs.head?.any Char.isDigit) then ['-', 'n'] :: (c :: cs) :: args
    else ('-' :: c :: cs) :: args
  | args => args

/-- Goes on as a program that leaves others more time. -/
def nice (run : Runner) : Tool := fun args =>
  Tool.withOptions "nice"
    { flags := "", valued := "n", names := [("adjustment", 'n')], stopsAtOperand := true }
    (fun call => do
      match (call.value? 'n').map fun v => (v, integer? v), call.operands with
      | some (v, none), _ => Tool.refuse "nice" ("invalid adjustment " ++ Tool.shown v) 125
      | some _, [] => Tool.decline "nice" "a command must be given with an adjustment" 125
      | none, [] => Act.write "0\n".toList
      | _, program :: args =>
        goOn run (fun name e => "nice: '" ++ name ++ "': " ++ Tool.reason e) program args) 125
    (niceArguments args)

/-- Goes on as a program in a session of its own. -/
def setsid (run : Runner) : Tool :=
  Tool.withOptions "setsid" { flags := "cfw", stopsAtOperand := true } fun call =>
    match call.operands with
    | [] => Tool.decline "setsid" "no command specified"
    | program :: args =>
      goOn run (fun name e => "setsid: failed to execute " ++ name ++ ": " ++ Tool.reason e)
        program args

/-- Goes on as a program whose channels hold back less or more. -/
def stdbuf (run : Runner) : Tool :=
  Tool.withOptions "stdbuf"
    { flags := "", valued := "ioe", names := [("input", 'i'), ("output", 'o'), ("error", 'e')],
      stopsAtOperand := true }
    (fun call =>
      match call.options, call.operands with
      | _, [] => Tool.decline "stdbuf" "missing operand" 125
      | [], _ => Tool.decline "stdbuf" "you must specify a buffering mode option" 125
      | _, program :: args => goOn run (runReport "stdbuf") program args) 125

def which : Tool := Tool.withOptions "which" { flags := "a" } fun call => do
  let m ← get
  let found := call.operands.filterMap fun w => (Program.search m (Octets.toText w)).toOption
  let all := found.flatMap fun f =>
    if call.has 'a' && f.path.startsWith "/usr/bin/" then
      [f.path, String.ofList (f.path.toList.drop 4)] else [f.path]
  let isAll := found.length = call.operands.length && !call.operands.isEmpty
  Tool.finishing (if isAll then 0 else 1) (Tool.unlines (all.map Octets.ofText))

/-! ## Time -/

def timeoutOptions : Tool.Options where
  flags := "pfv"
  valued := "ks"
  names := [("preserve-status", 'p'), ("foreground", 'f'), ("verbose", 'v'), ("kill-after", 'k'),
    ("signal", 's')]
  stopsAtOperand := true

/-- The number of the signal that ends a program politely. -/
def politeSignal : Nat := 15

/-- The signal that an argument names, with its name. -/
def signal? (word : Octets) : Option (Nat × String) :=
  let text := Octets.toText word
  let bare := ((Text.dropStart? "SIG".toList text.toList).map String.ofList).getD text
  signalNames.find? fun (n, name) => name == bare || toString n == bare

/-- Runs a process up to some time; whether it was stopped then. What it wrote for a reader who takes
only a part goes on without end. -/
def upTo (nanos : Nat) (act : Act Unit) : Act (Option ExitStatus) := do
  let before ← get
  let deadline := before.clock + nanos
  let isFirst := nanos != 0 && before.limit.all fun l => decide (deadline < l)
  if isFirst then modify fun m => { m with limit := some deadline }
  let r ← Act.attempt (Act.process act)
  let after ← get
  set { after with limit := before.limit }
  let flows := match find? 1 before.channels with
    | some (.sink k) => k != Machine.outputSink && k != Machine.errorSink &&
        (after.written.take (after.written.length - before.written.length)).any (·.sink == k)
    | _ => false
  match r with
  | .ok status => return some status
  | .error h =>
    if isFirst && (h = .late || (h = .endless && !flows)) then
      set { before with
        sources := after.sources
        openSources := after.openSources
        fileSources := after.fileSources
        written := after.written.filter fun c => c.time ≤ deadline
        fresh := after.fresh
        tree := after.tree
        startable := after.startable
        clock := deadline }
      return none
    else Act.halt h

def timeout (run : Runner) : Tool := Tool.withOptions "timeout" timeoutOptions (fun call => do
  let asked := call.value? 's'
  match (asked.getD "TERM".toList, signal? (asked.getD "TERM".toList)), call.operands with
  | (word, none), _ => Tool.decline "timeout" (Tool.shown word ++ ": invalid signal") 125
  | _, [] | _, [_] =>
    Act.complain "Try 'timeout --help' for more information."
    return 125
  | (_, some (signal, signalName)), time :: program :: args =>
    match (call.value? 'k').toList ++ [time] |>.find? fun t => (Tool.nanosOf? t).isNone with
    | some wrong => Tool.decline "timeout" ("invalid time interval " ++ Tool.shown wrong) 125
    | none =>
      match Program.search (← get) (Octets.toText program) with
      | .error e =>
        Act.complain (runReport "timeout" (Octets.toText program) e)
        return if e = .notFound then 127 else 126
      | .ok _ =>
        match ← upTo ((Tool.nanosOf? time).getD 0) (Act.become (run program args)) with
        | some (.code n) => return n
        | some (.signal n) => Act.halt (.exit (.signal n))
        | none =>
          if call.has 'v' then
            Act.complain ("timeout: sending signal " ++ signalName ++ " to command " ++
              Tool.shown program)
          if signal = 9 then Act.halt (.exit (.signal signal))
          return if call.has 'p' then 128 + signal else 124) 125

/-! ## Arguments from input -/

def xargsOptions : Tool.Options where
  flags := "0rtxo"
  valued := "nILdaPsE"
  attached := "ile"
  names := [("null", '0'), ("no-run-if-empty", 'r'), ("verbose", 't'), ("exit", 'x'),
    ("open-tty", 'o'), ("max-args", 'n'), ("replace", 'i'), ("max-lines", 'l'),
    ("delimiter", 'd'), ("arg-file", 'a'), ("max-procs", 'P'), ("max-chars", 's'), ("eof", 'e')]
  stopsAtOperand := true

/-- The words that have been read, the last first, and the ends of lines between them. -/
structure Reading where
  words : List (Option Octets)
  current : Option Octets
  /-- The octet that was read last is a blank. -/
  afterBlank : Bool

def Reading.push (c : Char) (r : Reading) : Reading :=
  { r with current := some (c :: r.current.getD []), afterBlank := false }

def Reading.close (r : Reading) : Reading :=
  match r.current with
  | some w => { r with words := some w.reverse :: r.words, current := none }
  | none => r

/-- The words of an input with quotes and the ends of its lines, and the quote that is not closed. Whole
lines are words if that is wanted. -/
def readWords (wholeLines : Bool) (r : Reading) (quote? : Option Char) :
    Octets → List (Option Octets) × Option Char
  | [] =>
    match quote? with
    | some q => (r.words.reverse, some q)
    | none => (r.close.words.reverse, none)
  | c :: cs =>
    match quote? with
    | some q =>
      if c = q then readWords wholeLines r none cs
      else if c = '\n' then (r.words.reverse, some q)
      else readWords wholeLines (r.push c) quote? cs
    | none =>
      if c = '\\' then
        match cs with
        | [] => (r.close.words.reverse, none)
        | d :: ds => readWords wholeLines (r.push d) none ds
      else if c = '"' || c = '\x27' then
        readWords wholeLines { r with current := some (r.current.getD []) } (some c) cs
      else if c = '\n' then
        let r' := r.close
        let ends := !(r.afterBlank && !wholeLines) && r'.words.head?.any Option.isSome
        readWords wholeLines
          { r' with words := if ends then none :: r'.words else r'.words, afterBlank := false }
          none cs
      else if isSpace c then
        if wholeLines && r.current.isSome then readWords wholeLines (r.push c) none cs
        else readWords wholeLines { r.close with afterBlank := true } none cs
      else readWords wholeLines (r.push c) none cs

def chunksOf {α : Type} (n : Nat) : Nat → List α → List (List α)
  | 0, _ | _, [] => []
  | fuel + 1, ws => ws.take n :: chunksOf n fuel (ws.drop n)

/-- How the calls of a program went. -/
inductive Calls
  | goOn (status : Nat)
  | stop (status : Nat)

def callOnce (run : Runner) (shows : Bool) (status : Nat) (program : Octets) (args : List Octets) :
    Act Calls := do
  let name := Octets.toText program
  if shows then Act.complain (Octets.toText (List.intercalate [' '] (program :: args)))
  match Program.search (← get) name with
  | .error e =>
    Act.complain ("xargs: " ++ name ++ ": " ++ Tool.reason e)
    return .stop (if e = .notFound then 127 else 126)
  | .ok _ =>
    match ← Act.process (Act.become do
      Act.setChannel 0 .null
      run program args) with
    | .code 0 => return .goOn status
    | .code n =>
      if n = 255 then
        Act.complain ("xargs: " ++ name ++ ": exited with status 255; aborting")
        return .stop 124
      else return .goOn 123
    | .signal n =>
      Act.complain ("xargs: " ++ name ++ ": terminated by signal " ++ toString n)
      return .stop 125

/-- Runs a program with lists of arguments, one after another. -/
def callEach (run : Runner) (shows : Bool) (program : Octets) (status : Nat) :
    List (List Octets) → Act Nat
  | [] => return status
  | args :: rest => do
    match ← callOnce run shows status program args with
    | .stop n => return n
    | .goOn n => callEach run shows program n rest

def optionNumber (letter : Char) (value : Octets) : Except String Nat :=
  match integer? value with
  | none => .error ("invalid number \"" ++ Octets.toText value ++ "\" for -" ++ letter.toString ++
      " option")
  | some n =>
    if n < 1 then
      .error ("value " ++ toString n ++ " for -" ++ letter.toString ++ " option should be >= 1")
    else .ok n.toNat

def delimiter? (value : Octets) : Except String Char :=
  match value with
  | [c] => .ok c
  | value =>
    match value.head?, (Written.unescape true value.length value).1 with
    | some '\\', [c] => .ok c
    | _, _ => .error ("Invalid input delimiter specification " ++ Octets.toText value ++
        ": the delimiter must be either a single character or an escape sequence starting with \\.")

/-- How the words of an input become the arguments of calls. -/
inductive Grouping
  | together
  | byCount (n : Nat)
  | byLines (n : Nat)
  | filling (mark : Octets)

/-- The grouping that the last one of some options asks for. -/
def grouping (call : Tool.Call) : Except String Grouping :=
  let letters := ['n', 'L', 'l', 'I', 'i']
  match (call.options.filter fun (c, _) => letters.contains c).getLast? with
  | some ('n', v) => (optionNumber 'n' v).map fun n =>
      if n = 1 && (call.has 'I' || call.has 'i') then
        .filling ((call.value? 'I').getD ((call.value? 'i').getD "\x7b\x7d".toList))
      else .byCount n
  | some ('L', v) => (optionNumber 'L' v).map .byLines
  | some ('l', v) => if v.isEmpty then .ok (.byLines 1) else (optionNumber 'l' v).map .byLines
  | some ('I', v) => .ok (.filling v)
  | some ('i', v) => .ok (.filling (if v.isEmpty then "\x7b\x7d".toList else v))
  | _ => .ok .together

def linesOfWords (ws : List (Option Octets)) : List (List Octets) :=
  let (lines, current) := ws.foldr
    (fun w (lines, current) =>
      match w with
      | some w => (lines, w :: current)
      | none => (current :: lines, []))
    (([] : List (List Octets)), ([] : List Octets))
  (current :: lines).filter (!·.isEmpty)

/-- Runs a program with the words of the input as arguments. -/
def xargs (run : Runner) : Tool := Tool.withOptions "xargs" xargsOptions fun call => do
  match grouping call, (call.value? 'd').mapM delimiter? with
  | .error e, _ => Tool.decline "xargs" e
  | _, .error e => Tool.refuse "xargs" e
  | .ok grouping, .ok delimiter? =>
    let input ← match call.value? 'a' with
      | some path => Tool.contentOf path
      | none => Except.ok <$> Act.readAll
    match input with
    | .error e =>
      Tool.refuse "xargs" ("Cannot open input file " ++
        Tool.shown ((call.value? 'a').getD []) ++ ": " ++ Tool.reason e)
    | .ok input =>
      let wholeLines := match grouping with
        | .filling _ => true
        | _ => false
      let separator? := if call.has '0' then some '\x00' else delimiter?
      let (items, quote?) := match separator? with
        | some c =>
          let ws := Tool.fieldsOf c input
          let ws := if ws.getLast? = some [] then ws.dropLast else ws
          (ws.flatMap fun w => [some w, none], none)
        | none => readWords wholeLines ⟨[], none, false⟩ none input
      let words := items.filterMap id
      let words := match (call.value? 'E').orElse fun _ => call.value? 'e' with
        | some last =>
          if last.isEmpty || separator?.isSome then words else words.takeWhile (· ≠ last)
        | none => words
      if let some q := quote? then
        Act.complain ("xargs: unmatched " ++ (if q = '"' then "double" else "single") ++
          " quote; by default quotes are special to xargs unless you use the -0 option")
      let (program, fixed) := match call.operands with
        | [] => ("echo".toList, [])
        | program :: args => (program, args)
      let always := words.isEmpty && !call.has 'r' && quote?.isNone
      let calls : List (List Octets) := match grouping with
        | .filling mark => if quote?.isSome then [] else words.map fun w => fixed.map (filled mark w)
        | .together => if words.isEmpty && !always then [] else [fixed ++ words]
        | .byCount n =>
          if always then [fixed] else (chunksOf n words.length words).map (fixed ++ ·)
        | .byLines n =>
          let lines := linesOfWords items
          if always then [fixed]
          else (chunksOf n lines.length lines).map fun ls => fixed ++ ls.flatten
      let status ← callEach run (call.has 't') program 0 calls
      return if quote?.isSome then 1 else status

/-- The tools that start programs, by their names. -/
def byName? (name : String) : Option (Runner → Tool) :=
  match name with
  | "awk" | "mawk" => some Record.awk
  | "env" => some env
  | "find" => some find
  | "xargs" => some xargs
  | "timeout" => some timeout
  | "nohup" => some nohup
  | "nice" => some nice
  | "setsid" => some setsid
  | "stdbuf" => some stdbuf
  | "which" => some fun _ => which
  | _ => none

end Starter

end Punctual.Shell
