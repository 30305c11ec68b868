import Punctual.Shell.Record.State

/-!
# Running record programs

Expressions have values, and statements change the state of the program. The rules of a program are
carried out before the first record, for every record, and behind the last one.
-/

namespace Punctual.Shell.Record

namespace Run

/-! ## Replacing -/

/-- The pieces of a replacement; none stands for what was matched. -/
def newPieces : Nat → Octets → List (Option Char)
  | 0, _ | _, [] => []
  | fuel + 1, '\\' :: cs =>
    let slashes := 1 + (cs.takeWhile (· = '\\')).length
    let rest := cs.dropWhile (· = '\\')
    if rest.head? = some '&' then
      List.replicate (slashes / 2) (some '\\') ++
        (if slashes % 2 = 1 then some '&' else none) :: newPieces fuel rest.tail
    else List.replicate slashes (some '\\') ++ newPieces fuel rest
  | fuel + 1, c :: cs => (if c = '&' then none else some c) :: newPieces fuel cs

def newText (pieces : List (Option Char)) (found : Octets) : Octets :=
  pieces.flatMap fun
    | some c => [c]
    | none => found

/-- Replaces matches in octets behind `passed`, all or the first one, and counts them. Right behind a
match (`adjacent`) an empty one does not count. -/
def replaceFrom (r : Regex) (pieces : List (Option Char)) (all : Bool) :
    Nat → Bool → Octets → Octets → Octets × Nat
  | 0, _, _, cs => (cs, 0)
  | fuel + 1, adjacent, passed, cs =>
    match r.search passed cs with
    | none => (cs, 0)
    | some m =>
      let skipped := m.before.drop passed.length
      if m.found.isEmpty && skipped.isEmpty && adjacent then
        match cs with
        | [] => ([], 0)
        | c :: rest =>
          let (out, n) := replaceFrom r pieces all fuel false (passed ++ [c]) rest
          (c :: out, n)
      else
        let own := skipped ++ newText pieces m.found
        let passed := m.before ++ m.found
        if !all then (own ++ m.behind, 1)
        else
          match m.found, m.behind with
          | [], [] => (own, 1)
          | [], c :: rest =>
            let (out, n) := replaceFrom r pieces all fuel false (passed ++ [c]) rest
            (own ++ c :: out, n + 1)
          | _, behind =>
            let (out, n) := replaceFrom r pieces all fuel true passed behind
            (own ++ out, n + 1)

/-! ## Operations -/

/-- The remainder of a division, with the sign of the dividend. -/
def remainder (x y : Float) : Float :=
  match Number.Binary64.ofFloat x, Number.Binary64.ofFloat y with
  | .finite _ _ _, .infinite _ => x
  | .finite isNegative m p, .finite _ (n + 1) q =>
    let low := min p q
    let a := m * Nat.pow 2 (p - low).toNat
    let b := (n + 1) * Nat.pow 2 (q - low).toNat
    let r := (Float.ofNat (a % b)).scaleB low
    if isNegative then -r else r
  | _, _ => 0.0 / 0.0

def calculate (op : Operation) (x y : Float) : Float :=
  match op with
  | .plus => x + y
  | .minus => x - y
  | .times => x * y
  | .over => x / y
  | .modulo => remainder x y
  | .power => Float.pow x y
  | .join => x

/-- The part of a text from a place on, which has a length at most. The first place is one. -/
def part (cs : Octets) (start : Float) (length? : Option Float) : Octets :=
  let first := truncated start
  let stop := match length? with
    | some n => first + truncated n
    | none => Written.maxInteger
  if start.isNaN || length?.any Float.isNaN then []
  else
    let from_ := max first 1
    (cs.drop (from_ - 1).toNat).take (stop - from_).toNat

/-- The place of a text in another one, or zero. -/
def placeOf (t : Octets) (n : Nat) : Octets → Nat
  | [] => 0
  | c :: cs => if t.isPrefixOf (c :: cs) then n else placeOf t (n + 1) cs

/-! ## Variables -/

def valueOf (name : String) : Run Value := do
  let s ← get
  match find? name s.names with
  | some (.value v) => return v
  | some (.table _) => return .missing
  | none =>
    if name = "NF" then return .ofNat s.fields.size
    else return (s.values[name]?).getD .missing

def setVariable (name : String) (v : Value) : Run Unit := do
  if (find? name (← get).names).isSome then
    modify fun s => { s with names := upsert name (.value v) s.names }
  else if name = "NF" then setCount v
  else setGlobal name v

/-- What a value can be assigned to. -/
inductive Target
  | variable (name : String)
  | field (n : Nat)
  | element (table : Nat) (k : Key)
  | nothing

def read : Target → Run Value
  | .variable name => valueOf name
  | .field n => field n
  | .element n k => element n k
  | .nothing => return .missing

def write (t : Target) (v : Value) : Run Unit := do
  match t with
  | .variable name => setVariable name v
  | .field n => setField n v
  | .element n k => withTable n fun t => ((), t.put k v)
  | .nothing => pure ()

/-! ## Evaluating -/

/-- The surroundings of a running program. -/
structure Context where
  run : Runner
  functions : List Function

/-- The value of a known function that works on values alone. -/
def plainFunction (f : Known) (vs : List Value) : Run Value := do
  let x := vs.head?.getD Value.missing
  let number (g : Float → Float) : Run Value := return .number (g x.toNumber)
  match f with
  | .sin => number Float.sin
  | .cos => number Float.cos
  | .exp => number Float.exp
  | .log => number Float.log
  | .sqrt => number Float.sqrt
  | .int => number fun x => if x < 0 then Float.ceil x else Float.floor x
  | .atan2 => return .number (Float.atan2 x.toNumber ((vs[1]?).getD Value.missing).toNumber)
  | .upper => return .text ((← text x).map Char.toUpper)
  | .lower => return .text ((← text x).map Char.toLower)
  | .index =>
    let t ← text ((vs[1]?).getD Value.missing)
    let cs ← text x
    return .ofNat (if t.isEmpty then 1 else placeOf t 1 cs)
  | .substr =>
    let start := ((vs[1]?).getD Value.missing).toNumber
    return .text (part (← text x) start ((vs[2]?).map Value.toNumber))
  | .length =>
    let cs ← if vs.isEmpty then pure (← get).record else text x
    return .ofNat cs.length
  | .random =>
    modify fun s => { s with seed := remainder (16807 * s.seed) 2147483647 }
    return .number ((← get).seed / 2147483648)
  | .seed =>
    let before := (← get).seed
    let seconds := Float.ofNat ((← get).machine.clock / 1000000000)
    modify fun s => { s with seed := if vs.isEmpty then seconds else x.toNumber }
    return .number before
  | _ => return .missing

/-- The text of a format that is filled in, and what is said if that ends too early, by a statement or a
function of some name. -/
def filledIn (name : String) (vs : List Value) : Run (Octets × Option String) := do
  let format ← text (vs.head?.getD .missing)
  let (cs, flaw) := fillIn (← setting "CONVFMT") 1 (formatPieces format.length format) vs.tail
  let shown := name ++ "(\"" ++ Octets.toText format ++ "\")"
  return (cs, flaw.map fun
    | .tooFewArguments => "not enough arguments passed to " ++ shown
    | .improper n => "improper conversion(number " ++ toString n ++ ") in " ++ shown)

/-- Ends what has a name: an output, or inputs. -/
def close (c : Context) (name : Octets) : Run Value := do
  let s ← get
  modify fun s => { s with
    outlets := s.outlets.filter fun o => o.name != name
    files := s.files.filter fun (n, _) => n != name
    commands := s.commands.filter fun (n, _) => n != name }
  match s.outlets.find? fun o => o.name == name with
  | some o => return .ofNat (← closeOutlet c.run o)
  | none =>
    match find? name s.files, find? name s.commands with
    | some _, _ => return .number 0
    | none, some i => return .ofNat i.status
    | none, none => return .number (-1)

def takeFrom (name : Octets) : Run (Except IoError (Option Octets)) := do
  let inlet ← match find? name (← get).files with
    | some i => pure (.ok i)
    | none => openInlet (Octets.toText name)
  match inlet with
  | .error e => return .error e
  | .ok i =>
    let (record, i) ← take i
    modify fun s => { s with files := upsert name i s.files }
    return .ok record

def takeFromCommand (c : Context) (command : Octets) : Run (Option Octets) := do
  let i ← match find? command (← get).commands with
    | some i => pure i
    | none => openCommand c.run command
  let (record, i) ← take i
  modify fun s => { s with commands := upsert command i s.commands }
  return record

/-- The next record of the inputs that arguments name. -/
def takeMain : Run (Option Octets) := do
  let count := (((← get).tables[0]?).map Table.size).getD 0
  takeNext setVariable (count + 2)

mutual

def eval (c : Context) : Nat → Expr → Run Value
  | 0, _ => throw (.halt .endless)
  | fuel + 1, e =>
    match e with
    | .number x => return .number x
    | .text cs => return .text cs
    | .regex r => return .ofBool (r.occursIn (← get).record)
    | .variable name => valueOf name
    | .field _ | .element _ _ => do read (← target c fuel e)
    | .contains index table => do
      let k ← key c fuel index
      withTable (← tableOf table) fun t =>
        let (v?, t) := t.find k
        (.ofBool v?.isSome, t)
    | .assign e value => do
      let place ← target c fuel e
      let v ← eval c fuel value
      write place v
      return v
    | .update op e value => do
      let place ← target c fuel e
      let y := (← eval c fuel value).toNumber
      let v := Value.number (calculate op (← read place).toNumber y)
      write place v
      return v
    | .step up before e => do
      let place ← target c fuel e
      let x := (← read place).toNumber
      let y := if up then x + 1 else x - 1
      write place (.number y)
      return .number (if before then x else y)
    | .negative e => return .number (-(← eval c fuel e).toNumber)
    | .positive e => return .number (← eval c fuel e).toNumber
    | .not e => return .ofBool !(← eval c fuel e).isTrue
    | .apply .join a b => do
      let s ← evalText c fuel a
      let t ← evalText c fuel b
      return .text (s ++ t)
    | .apply op a b => do
      let x := (← eval c fuel a).toNumber
      let y := (← eval c fuel b).toNumber
      return .number (calculate op x y)
    | .compare r a b => do
      let v ← eval c fuel a
      let w ← eval c fuel b
      return .ofBool (r.holds (v.order (← setting "CONVFMT") w))
    | .matching a b => do
      let cs ← evalText c fuel a
      let r ← evalRegex c fuel b
      return .ofBool (r.occursIn cs)
    | .both a b => do
      if (← eval c fuel a).isTrue then return .ofBool (← eval c fuel b).isTrue
      else return .ofBool false
    | .either a b => do
      if (← eval c fuel a).isTrue then return .ofBool true
      else return .ofBool (← eval c fuel b).isTrue
    | .choice p a b => do
      if (← eval c fuel p).isTrue then eval c fuel a else eval c fuel b
    | .several es => do return .text (← es.mapM fun e => evalText c fuel e).flatten
    | .call name args => call c fuel name args
    | .known f args => evalKnown c fuel f args
    | .line target => do
      match ← takeMain with
      | none => return .number 0
      | some record =>
        countRecord
        receive c fuel target record
    | .lineOf path target => do
      match ← takeFrom (← evalText c fuel path) with
      | .error _ => return .number (-1)
      | .ok none => return .number 0
      | .ok (some record) => receive c fuel target record
    | .lineFrom command target => do
      match ← takeFromCommand c (← evalText c fuel command) with
      | none => return .number 0
      | some record => receive c fuel target record

def evalText (c : Context) : Nat → Expr → Run Octets
  | 0, _ => throw (.halt .endless)
  | fuel + 1, e => do text (← eval c fuel e)

/-- The regular expression that an expression is or names. -/
def evalRegex (c : Context) : Nat → Expr → Run Regex
  | 0, _ => throw (.halt .endless)
  | fuel + 1, e => do
    match e with
    | .regex r => return r
    | e => regexOf (← evalText c fuel e)

def fieldNumber (c : Context) : Nat → Expr → Run Nat
  | 0, _ => throw (.halt .endless)
  | fuel + 1, e => do
    let n := truncated (← eval c fuel e).toNumber
    if n < 0 then failAt ("negative field index $" ++ toString n)
    return n.toNat

def key (c : Context) : Nat → List Expr → Run Key
  | 0, _ => throw (.halt .endless)
  | fuel + 1, index => do
    match index with
    | [e] => return (← eval c fuel e).toKey (← setting "CONVFMT")
    | es =>
      let texts ← es.mapM fun e => evalText c fuel e
      return ⟨List.intercalate (← setting "SUBSEP") texts, none⟩

def target (c : Context) : Nat → Expr → Run Target
  | 0, _ => throw (.halt .endless)
  | fuel + 1, e => do
    match e with
    | .variable name => return .variable name
    | .field e => return .field (← fieldNumber c fuel e)
    | .element table index =>
      let k ← key c fuel index
      return .element (← tableOf table) k
    | _ => return .nothing

/-- Assigns a record that was taken from an input. -/
def receive (c : Context) : Nat → Option Expr → Octets → Run Value
  | 0, _, _ => throw (.halt .endless)
  | fuel + 1, e?, record => do
    match e? with
    | some e => write (← target c fuel e) (.given record)
    | none => setRecord record
    return .number 1

def call (c : Context) : Nat → String → List Expr → Run Value
  | 0, _, _ => throw (.halt .endless)
  | fuel + 1, name, args => do
    match c.functions.find? fun f => f.name == name with
    | none => return .missing
    | some f =>
      let names ← f.params.zipIdx.mapM fun (p, i) => do
        if f.tables.contains p then
          match args[i]? with
          | some (.variable n) => return (p, Local.table (← tableOf n))
          | _ => return (p, .table (← newTable))
        else
          match args[i]? with
          | some e => return (p, .value (← eval c fuel e))
          | none => return (p, .value .missing)
      let outer := (← get).names
      modify fun s => { s with names }
      let r ← attempt (exec c fuel f.body)
      modify fun s => { s with names := outer }
      match r with
      | .ok () => return .missing
      | .error (.back v) => return v
      | .error l => throw l

def evalKnown (c : Context) : Nat → Known → List Expr → Run Value
  | 0, _, _ => throw (.halt .endless)
  | fuel + 1, f, args => do
    match f, args with
    | .length, [.variable name] =>
      let s ← get
      let number? := match find? name s.names with
        | some (.table n) => some n
        | some (.value _) => none
        | none => if (s.values[name]?).isSome then none else s.tableNumbers[name]?
      match number? with
      | some n => withTable n fun t => (.ofNat t.size, t)
      | none => plainFunction .length [← valueOf name]
    | .split, e :: .variable name :: rest =>
      let cs ← evalText c fuel e
      let separator ← match rest with
        | .regex r :: _ => pure (.regex r)
        | e :: _ => separatorOf (← evalText c fuel e)
        | [] => separatorOf (← setting "FS")
      let parts := split separator cs
      withTable (← tableOf name) fun _ => ((), .ofList (parts.map Value.given))
      return .ofNat parts.length
    | .match, [e, r] =>
      let cs ← evalText c fuel e
      let r ← evalRegex c fuel r
      let (start, length) : Nat × Value := match r.search [] cs with
        | some m => (m.before.length + 1, .ofNat m.found.length)
        | none => (0, .number (-1))
      setVariable "RSTART" (.ofNat start)
      setVariable "RLENGTH" length
      return .ofNat start
    | .replace all, r :: new :: rest =>
      let r ← evalRegex c fuel r
      let new ← evalText c fuel new
      let place ← target c fuel (rest.head?.getD (.field (.number 0)))
      let cs ← text (← read place)
      let pieces := newPieces new.length new
      let (out, n) := replaceFrom r pieces all (2 * cs.length + 3) false [] cs
      if n ≠ 0 then write place (.text out)
      return .ofNat n
    | .format, es =>
      match ← filledIn "sprintf" (← es.mapM fun e => eval c fuel e) with
      | (cs, none) => return .text cs
      | (_, some report) => failAt report
    | .run, [e] =>
      let command ← evalText c fuel e
      flushAll
      return .ofNat (← act (shell c.run "sh" command))
    | .close, [e] => do close c (← evalText c fuel e)
    | .flush, es =>
      for e in es do
        let _ ← evalText c fuel e
      flushAll
      return .number 0
    | f, es => plainFunction f (← es.mapM fun e => eval c fuel e)

def exec (c : Context) : Nat → Stmt → Run Unit
  | 0, _ => throw (.halt .endless)
  | fuel + 1, st =>
    match st with
    | .express e => do
      let _ ← eval c fuel e
    | .print args sink => do
      let own ← if args.isEmpty then pure (← get).record
        else do
          let texts ← args.mapM fun e => do
            match ← eval c fuel e with
            | .number x => return (Value.number x).toText (← setting "OFMT")
            | v => text v
          pure (List.intercalate (← setting "OFS") texts)
      emit (← goal c fuel sink) (own ++ (← setting "ORS"))
    | .format args sink => do
      let vs ← args.mapM fun e => eval c fuel e
      let goal ← goal c fuel sink
      let (cs, report?) ← filledIn "printf" vs
      emit goal cs
      report?.forM failAt
    | .cond p yes no => do
      if (← eval c fuel p).isTrue then exec c fuel yes else exec c fuel no
    | .loop p body =>
      iterate (do
        if (← eval c fuel p).isTrue then round (exec c fuel body) else return false) bound
    | .loopAfter body p =>
      iterate (do
        if ← round (exec c fuel body) then return (← eval c fuel p).isTrue
        else return false) bound
    | .count start p step body => do
      exec c fuel start
      iterate (do
        let goesOn ← match p with
          | some p => pure (← eval c fuel p).isTrue
          | none => pure true
        if !goesOn then return false
        if ← round (exec c fuel body) then
          exec c fuel step
          return true
        else return false) bound
    | .each name table body => do
      let keys ← withTable (← tableOf table) Table.keys
      walk name (exec c fuel body) keys
    | .block ss => do
      for st in ss do
        exec c fuel st
    | .next => throw .next
    | .nextFile => throw .nextFile
    | .exit e? => do
      match e? with
      | some e => throw (.exit (some (truncated (← eval c fuel e).toNumber % 256).toNat))
      | none => throw (.exit none)
    | .back e? => do
      match e? with
      | some e => throw (.back (← eval c fuel e))
      | none => throw (.back .missing)
    | .leave => throw .leave
    | .goOn => throw .goOn
    | .delete table index => do
      let k ← key c fuel index
      withTable (← tableOf table) fun t => ((), t.erase k)
    | .clear table => do
      withTable (← tableOf table) fun _ => ((), .empty)
where
  /-- Carries out the body of a loop; whether the loop goes on. -/
  round (body : Run Unit) : Run Bool := do
    match ← attempt body with
    | .ok () | .error .goOn => return true
    | .error .leave => return false
    | .error l => throw l
  /-- Carries out the body of a walk for each key. -/
  walk (name : String) (body : Run Unit) : List Octets → Run Unit
    | [] => return
    | k :: ks => do
      setVariable name (.text k)
      if ← round body then walk name body ks

def goal (c : Context) : Nat → Option (Way × Expr) → Run (Option (Way × Octets))
  | 0, _ => throw (.halt .endless)
  | fuel + 1, sink => do
    match sink with
    | some (way, e) => return some (way, ← evalText c fuel e)
    | none => return none

end

/-! ## Rules -/

/-- How deep expressions, statements and calls are in one another at most. -/
def depth : Nat := 20000

def selects (c : Context) (p : Pattern) : Run Bool := do
  match p with
  | .first | .last => return false
  | .always => return true
  | .selected e => return (← eval c depth e).isTrue
  | .between n a b =>
    let hasBegun := (← get).begun.contains n
    if hasBegun || (← eval c depth a).isTrue then
      let ends := (← eval c depth b).isTrue
      modify fun s => { s with
        begun := if ends then s.begun.filter (· ≠ n) else if hasBegun then s.begun else n :: s.begun }
      return true
    else return false

def forRecord (c : Context) : List Rule → Run Unit
  | [] => return
  | r :: rs => do
    if ← selects c r.pattern then exec c depth r.action
    forRecord c rs

def forRecords (c : Context) (rules : List Rule) : Run Unit :=
  iterate (do
    match ← takeMain with
    | none => return false
    | some record =>
      setRecord record
      countRecord
      match ← attempt (forRecord c rules) with
      | .ok () | .error .next => return true
      | .error .nextFile =>
        modify fun s => { s with input := none }
        return true
      | .error l => throw l) bound

/-- Carries out a part of a program; whether the program goes on behind it. -/
def goesOn (part : Run Unit) : Run Bool := do
  match ← attempt part with
  | .ok () => return true
  | .error (.exit status?) =>
    modify fun s => { s with status := status?.getD s.status, names := [] }
    return false
  | .error l => throw l

/-- Carries out the rules that stand at an edge of the input. -/
def atEdge (c : Context) (p : Program) (isFirst : Bool) : Run Unit := do
  for r in p.rules do
    match r.pattern, isFirst with
    | .first, true | .last, false => exec c depth r.action
    | _, _ => pure ()

def rules (c : Context) (p : Program) : Run Unit := do
  let main := p.rules.filter fun r => match r.pattern with
    | .first | .last => false
    | _ => true
  let hasLast := p.rules.any fun r => match r.pattern with
    | .last => true
    | _ => false
  if ← goesOn (atEdge c p true) then
    if !main.isEmpty || hasLast then
      let _ ← goesOn (forRecords c main)
  let _ ← goesOn (atEdge c p false)

/-- Carries out a program and ends its outputs. -/
def program (c : Context) (p : Program) : Run Unit := do
  match ← attempt (rules c p) with
  | .ok () | .error .fatal => closeAll c.run
  | .error (.halt .endless) =>
    if capacity ≤ (← get).heldCount then flushOwn
    throw (.halt .endless)
  | .error l => throw l

end Run

/-! ## The tool -/

/-- What arguments ask for. -/
structure Request where
  separator : Option Octets
  settings : List Octets
  paths : List Octets
  operands : List Octets

def Request.following (c : Char) (v : Octets) (r : Request) : Request :=
  if c = 'F' then { r with separator := r.separator.or (some v) }
  else if c = 'v' then { r with settings := v :: r.settings }
  else { r with paths := v :: r.paths }

/-- What arguments ask for, or what is said about them. -/
def Request.read : List Octets → Except String Request
  | [] => .ok ⟨none, [], [], []⟩
  | ['-', '-'] :: args => .ok ⟨none, [], [], args⟩
  | ('-' :: c :: value) :: args =>
    if c ≠ 'F' ∧ c ≠ 'v' ∧ c ≠ 'f' then
      .error ("not an option: " ++ Octets.toText ('-' :: c :: value))
    else
      match value, args with
      | [], [] => .error ("option -" ++ c.toString ++ " lacks argument")
      | [], v :: args => (read args).map (following c v)
      | v, args => (read args).map (following c v)
  | args => .ok ⟨none, [], [], args⟩

def refuse (report : String) : Act Nat := Tool.refuse "awk" report 2

def sourceOf : List Octets → Act (Except (Octets × IoError) Octets)
  | [] => return .ok []
  | path :: paths => do
    match ← Tool.contentOf path with
    | .error e => return .error (path, e)
    | .ok cs => return (← sourceOf paths).map fun more => cs ++ '\n' :: more

/-- Carries out a program on the records of files. -/
def awk (run : Runner) : Tool := fun args => do
  match Request.read args with
  | .error report => refuse report
  | .ok request =>
    let source ← if request.paths.isEmpty then pure (.ok ((request.operands.head?).getD []))
      else sourceOf request.paths
    let operands := if request.paths.isEmpty then request.operands.tail else request.operands
    match source with
    | .error (path, e) =>
      refuse ("cannot open \"" ++ Octets.toText path ++ "\" (" ++ Tool.reason e ++ ")")
    | .ok source =>
      if request.paths.isEmpty && request.operands.isEmpty then
        Act.complain "Usage: mawk [Options] [Program] [file ...]"
        return 2
      match request.settings.find? fun a => (Run.assigned? a).isNone, Program.parse source with
      | some wrong, _ => refuse ("improper assignment: -v " ++ Octets.toText wrong)
      | none, .error f => refuse f.report
      | none, .ok p =>
        let main : Run Unit := do
          if let some cs := request.separator then
            Run.setGlobal "FS" (.text (Token.escaped cs.length cs))
          for a in request.settings do
            if let some (name, value) := Run.assigned? a then
              Run.setVariable name (.given value)
          Run.program ⟨run, p.functions⟩ p
        fun m =>
          match main (.start m ("awk".toList :: operands)) with
          | .ok () s => .ok s.status s.machine
          | .error (.halt h) s => .error h s.machine
          | .error _ s => .ok s.status s.machine

end Punctual.Shell.Record
