import Punctual.Shell.Lookup

/-!
# Searching for files

A search goes through directories and asks of every file whether an expression holds, which can do
something with the file as well: print its path, remove it, or run a program on it. An expression that
does nothing prints.
-/

namespace Punctual.Shell

namespace Starter

/-- A word with every place where a mark stands filled. -/
def filled (mark word : Octets) : Octets → Octets
  | [] => []
  | c :: cs =>
    if !mark.isEmpty && mark.isPrefixOf (c :: cs) then
      word ++ filled mark word (cs.drop (mark.length - 1))
    else c :: filled mark word cs
termination_by cs => cs.length

/-- An expression of a search. -/
inductive FindTest
  | always
  | never
  | named (pattern : List Glob) (anyCase : Bool)
  | pathNamed (pattern : List Glob) (anyCase : Bool)
  | matching (r : Regex)
  | ofKind (kinds : Octets)
  | isEmpty
  /-- How many units a file takes is less than, equal to or greater than a number. -/
  | size (relation : Ordering) (count unit : Nat)
  | canStart
  | print (byZeros : Bool)
  | delete
  | prune
  | run (words : List Octets)
  /-- A program runs on all files at once. -/
  | runOnAll (words : List Octets)
  | negated (t : FindTest)
  | both (a b : FindTest)
  | either (a b : FindTest)

namespace FindTest

def acts : FindTest → Bool
  | print _ | delete | run _ | runOnAll _ => true
  | negated t => acts t
  | both a b | either a b => acts a || acts b
  | _ => false

def deletes : FindTest → Bool
  | delete => true
  | negated t => deletes t
  | both a b | either a b => deletes a || deletes b
  | _ => false

/-! ## Reading -/

def pattern (cs : Octets) : List Glob :=
  Glob.ofWord (cs.map (·, false))

/-- A size, with a sign that asks for less or more, and a letter for a unit. -/
def size? (cs : Octets) : Option FindTest :=
  let (relation, cs) : Ordering × Octets := match cs with
    | '+' :: rest => (.gt, rest)
    | '-' :: rest => (.lt, rest)
    | rest => (.eq, rest)
  let unit? : Option Nat := match cs.dropWhile Char.isDigit with
    | ['c'] => some 1
    | ['w'] => some 2
    | [] | ['b'] => some 512
    | ['k'] => some 1024
    | ['M'] => some 1048576
    | ['G'] => some 1073741824
    | _ => none
  let digits := cs.takeWhile Char.isDigit
  if digits.isEmpty then none else unit?.map fun unit => size relation (Text.natOfDigits digits) unit

def quoted (word : Octets) : String :=
  "\x60" ++ Octets.toText word ++ "'"

/-- The words up to a semicolon, or up to a plus behind braces; whether it was the plus. -/
def programWords : List Octets → Option (List Octets × Bool × List Octets)
  | [] => none
  | [';'] :: rest => some ([], false, rest)
  | ['\x7b', '\x7d'] :: ['+'] :: rest => some (["\x7b\x7d".toList], true, rest)
  | w :: ws => (programWords ws).map fun (words, isPlus, rest) => (w :: words, isPlus, rest)

abbrev Reading (α : Type) := List Octets → Except String (α × List Octets)

/-- The test of a name, with the value behind it. -/
def valued (name : String) (v : Octets) : Option (Except String FindTest) :=
  match name with
  | "-name" => some (.ok (.named (pattern v) false))
  | "-iname" => some (.ok (.named (pattern (v.map Char.toLower)) true))
  | "-path" | "-wholename" => some (.ok (.pathNamed (pattern v) false))
  | "-ipath" => some (.ok (.pathNamed (pattern (v.map Char.toLower)) true))
  | "-regex" => some ((Regex.parse .plain false v).mapError Regex.Flaw.message |>.map fun p =>
      .matching (Regex.framed true false p.regex))
  | "-type" =>
    match (Tool.fieldsOf ',' v).find? fun k => k != ['d'] && k != ['f'] && k != ['l'] with
    | some k => some (.error ("Unknown argument to -type: " ++ Octets.toText k))
    | none => some (.ok (.ofKind (Tool.fieldsOf ',' v).flatten))
  | "-size" =>
    match size? v with
    | some t => some (.ok t)
    | none => some (.error ("Invalid argument " ++ quoted v ++ " to -size"))
  | "-maxdepth" | "-mindepth" =>
    some (if (Text.nat? v).isSome then .ok .always
      else .error ("Expected a positive decimal integer argument to " ++ name ++ ", but got '" ++
        Octets.toText v ++ "'"))
  | "-newer" => some (.ok .never)
  | _ => none

def primary : Reading FindTest
  | [] => .error "invalid expression"
  | arg :: args =>
    let name := Octets.toText arg
    match name with
    | "-true" | "-depth" => .ok (.always, args)
    | "-false" => .ok (.never, args)
    | "-empty" => .ok (.isEmpty, args)
    | "-executable" => .ok (.canStart, args)
    | "-print" => .ok (.print false, args)
    | "-print0" => .ok (.print true, args)
    | "-delete" => .ok (.delete, args)
    | "-prune" => .ok (.prune, args)
    | "-exec" =>
      match programWords args with
      | none | some ([], _, _) => .error ("missing argument to " ++ quoted arg)
      | some (words, isPlus, rest) => .ok (if isPlus then .runOnAll words else .run words, rest)
    | _ =>
      if arg.head? != some '-' then
        .error ("paths must precede expression: " ++ quoted arg)
      else
        match args, valued name (args.head?.getD ['d']) with
        | _, none => .error ("unknown predicate " ++ quoted arg)
        | [], some _ => .error ("missing argument to " ++ quoted arg)
        | _ :: args, some (.ok t) => .ok (t, args)
        | _, some (.error text) => .error text

/-- The text that says that nothing stands in front of an operator. -/
def nothingBefore (operator : Octets) : String :=
  "invalid expression; you have used a binary operator '" ++ Octets.toText operator ++
    "' with nothing before it."

mutual

def anyOf : Nat → Reading FindTest
  | 0, _ => .error "invalid expression"
  | fuel + 1, args => do
    let (t, rest) ← allOf fuel args
    match rest with
    | ['-', 'o'] :: rest | ['-', 'o', 'r'] :: rest =>
      let (u, rest) ← anyOf fuel rest
      return (.either t u, rest)
    | rest => return (t, rest)

def allOf : Nat → Reading FindTest
  | 0, _ => .error "invalid expression"
  | fuel + 1, args => do
    let (t, rest) ← single fuel args
    match rest with
    | [] | [')'] :: _ | ['-', 'o'] :: _ | ['-', 'o', 'r'] :: _ => return (t, rest)
    | ['-', 'a'] :: rest | ['-', 'a', 'n', 'd'] :: rest =>
      let (u, rest) ← allOf fuel rest
      return (.both t u, rest)
    | rest =>
      let (u, rest) ← allOf fuel rest
      return (.both t u, rest)

/-- An expression that is negated, stands in parentheses, or is one test. -/
def single : Nat → Reading FindTest
  | 0, _ => .error "invalid expression"
  | fuel + 1, args =>
    match args with
    | [] => .error "invalid expression"
    | ['('] :: rest => do
      let (t, rest) ← anyOf fuel rest
      match rest with
      | [')'] :: rest => return (t, rest)
      | _ =>
        .error "invalid expression; I was expecting to find a ')' somewhere but did not see one."
    | arg :: rest =>
      if arg = ['!'] || arg = "-not".toList then
        if rest.isEmpty then .error ("expected an expression after '" ++ Octets.toText arg ++ "'")
        else do
          let (t, rest) ← single fuel rest
          return (.negated t, rest)
      else if arg = "-o".toList || arg = "-a".toList || arg = "-or".toList || arg = "-and".toList then
        .error (nothingBefore arg)
      else if arg = [')'] then .error "you have too many ')'"
      else primary (arg :: rest)

end

/-- The expression of all arguments; without any, everything is printed. -/
def parse (args : List Octets) : Except String FindTest := do
  if args.isEmpty then return .print false
  let (t, rest) ← anyOf (4 * args.length + 4) args
  if !rest.isEmpty then .error "you have too many ')'"
  return if t.acts then t else .both t (.print false)

end FindTest

/-! ## Searching -/

/-- How far a search has come. -/
structure Finding where
  /-- The directory that was just asked about is passed over. -/
  isPruned : Bool
  /-- The files on which a program runs at the end. -/
  gathered : List Octets
  status : Nat

abbrev Find := StateT Finding Act

/-- Runs a program as a process of its own; whether it succeeds. -/
def runFound (run : Runner) (words : List Octets) : Act Bool := do
  match words with
  | [] => return false
  | program :: args =>
    match Program.search (← get) (Octets.toText program) with
    | .error e =>
      Act.complain ("find: " ++ Tool.shown program ++ ": " ++ Tool.reason e)
      return false
    | .ok _ =>
      let status ← Act.process (Act.become (run program args))
      return status == .code 0

/-- Removes what a path leads to; whether that was possible. -/
def removeFound (path : String) : Act Bool := do
  let m ← get
  let full := m.pathFrom path
  let refuse (reason : String) : Act Bool := do
    Act.complain ("find: cannot delete '" ++ path ++ "': " ++ reason)
    return false
  match m.tree.at? full, m.tree.locate full with
  | .ok .directory, .ok place =>
    if !(m.tree.within place).isEmpty then refuse "Directory not empty"
    else
      set { m with tree := ⟨m.tree.entries.filter fun (p, _) => p ≠ place⟩ }
      return true
  | .ok (.file _), .ok place =>
    set { m with tree := ⟨m.tree.entries.filter fun (p, _) => p ≠ place⟩ }
    return true
  | .error e, _ | _, .error e => refuse (Tool.reason e)

def directorySize : Nat := 4096

def FindTest.holds (run : Runner) (path : String) (place : Place) : FindTest → Find Bool
  | .always => return true
  | .never => return false
  | .named p anyCase =>
    let name := Octets.ofText (((Path.split path).filter (· ≠ "")).getLast?.getD path)
    return Glob.describes p (if anyCase then name.map Char.toLower else name)
  | .pathNamed p anyCase =>
    let path := Octets.ofText path
    return Glob.describes p (if anyCase then path.map Char.toLower else path)
  | .matching r => return r.occursIn (Octets.ofText path)
  | .ofKind kinds => do
    let m ← liftM (get : Act Machine)
    return kinds.contains (if m.tree.node? place == some .directory then 'd' else 'f')
  | .isEmpty => do
    let m ← liftM (get : Act Machine)
    match m.tree.node? place with
    | some (.file bytes) => return bytes.size == 0
    | _ => return (m.tree.within place).isEmpty
  | .size relation count unit => do
    let m ← liftM (get : Act Machine)
    let octets := match m.tree.node? place with
      | some (.file bytes) => bytes.size
      | _ => directorySize
    return compare ((octets + unit - 1) / unit) count == relation
  | .canStart => do
    let m ← liftM (get : Act Machine)
    return m.tree.node? place == some .directory || m.startable.contains place
  | .print byZeros => do
    let _ ← liftM (Act.write (Tool.unrecords byZeros [Octets.ofText path]))
    return true
  | .delete => do
    if ← liftM (removeFound path) then return true
    else
      modify fun f => { f with status := 1 }
      return false
  | .prune => do
    modify fun f => { f with isPruned := true }
    return true
  | .run words => liftM (runFound run (words.map (filled "\x7b\x7d".toList (Octets.ofText path))))
  | .runOnAll _ => do
    modify fun f => { f with gathered := f.gathered ++ [Octets.ofText path] }
    return true
  | .negated t => return !(← t.holds run path place)
  | .both a b => do
    if ← a.holds run path place then b.holds run path place else return false
  | .either a b => do
    if ← a.holds run path place then return true else b.holds run path place

/-- How deep a search goes, and where it begins to ask. -/
structure Depths where
  deepest : Option Nat
  highest : Nat
  /-- What is in a directory comes before it. -/
  isUpward : Bool

def findBelow (run : Runner) (t : FindTest) (d : Depths) : Nat → Nat → String → Place → Find Unit
  | 0, _, _, _ => return ()
  | fuel + 1, depth, path, place => do
    let ask : Find Unit := do
      modify fun f => { f with isPruned := false }
      if d.highest ≤ depth then
        let _ ← t.holds run path place
    if !d.isUpward then ask
    let isPruned := (← get).isPruned && !d.isUpward
    if !isPruned && d.deepest.all fun n => decide (depth < n) then
      let m ← liftM (get : Act Machine)
      for p in m.tree.within place do
        findBelow run t d fuel (depth + 1) (Path.join path (p.getLast?.getD "")) p
    if d.isUpward then ask

def findFrom (run : Runner) (t : FindTest) (d : Depths) : List String → Find Unit
  | [] => return ()
  | path :: paths => do
    let m ← liftM (get : Act Machine)
    let full := m.pathFrom path
    match m.tree.at? full, m.tree.locate full with
    | .ok _, .ok place => findBelow run t d (m.tree.entries.length + 1) 0 path place
    | .error e, _ | _, .error e =>
      liftM (Act.complain ("find: '" ++ path ++ "': " ++ Tool.reason e))
      modify fun f => { f with status := 1 }
    findFrom run t d paths

def FindTest.gatherers : FindTest → List (List Octets)
  | .runOnAll words => [words]
  | .negated t => gatherers t
  | .both a b | .either a b => gatherers a ++ gatherers b
  | _ => []

def numberBehind (name : String) : List Octets → Option Nat
  | [] | [_] => none
  | a :: b :: args => if a = name.toList then Text.nat? b else numberBehind name (b :: args)

def find (run : Runner) : Tool := fun args => do
  let isPath (a : Octets) : Bool := a.head? != some '-' && a != ['!'] && a != ['(']
  let paths := args.takeWhile isPath
  let paths := if paths.isEmpty then [['.']] else paths
  let rest := args.dropWhile isPath
  match FindTest.parse rest with
  | .error text =>
    let hint := match Text.dropStart? "paths must".toList text.toList, rest with
      | some _, name :: _ :: _ =>
        "\nfind: possible unquoted pattern after predicate " ++ FindTest.quoted name ++ "?"
      | _, _ => ""
    Tool.refuse "find" (text ++ hint)
  | .ok t => do
    let d : Depths := ⟨numberBehind "-maxdepth" rest, (numberBehind "-mindepth" rest).getD 0,
      t.deletes || rest.contains "-depth".toList⟩
    let ((), f) ← (findFrom run t d (paths.map Octets.toText)).run ⟨false, [], 0⟩
    let mut status := f.status
    for words in t.gatherers do
      if !f.gathered.isEmpty then
        let all := words.flatMap fun w => if w = "\x7b\x7d".toList then f.gathered else [w]
        if !(← runFound run all) then status := 1
    return status

end Starter

end Punctual.Shell
