import Punctual.Shell.Glob
import Punctual.Shell.Tool.Copy

/-!
# Tools for files

Files and directories are made, copied, moved, listed, searched and removed.
-/

namespace Punctual.Shell

namespace Tool

/-! ## Making and removing -/

/-- Acts on every path; the status is a failure if some action gives a report, which comes behind
the name of the tool. Without a path the tool says what is missing. -/
def forPaths (tool : String) (missing : String) (paths : List Octets)
    (act : String → Act (Option String)) : Act Nat := do
  if paths.isEmpty then decline tool missing
  else
    let mut status := 0
    for path in paths do
      match ← act (Octets.toText path) with
      | none => pure ()
      | some report =>
        Act.complain (tool ++ ": " ++ report)
        status := 1
    return status

def noOperand : String := "missing operand"

def note (wanted : Bool) (line : String) : Act Unit := do
  if wanted then
    let _ ← Act.write (Octets.ofText line ++ ['\n'])

def touchOptions : Options where
  flags := "acfhm"
  valued := "drt"
  names := [("no-create", 'c'), ("date", 'd'), ("reference", 'r')]

def touch : Tool := withOptions "touch" touchOptions fun call =>
  forPaths "touch" "missing file operand" call.operands fun path => do
    let m ← get
    if call.has 'c' && !m.tree.leadsSomewhere (m.pathFrom path) then return none
    match ← Act.openOutput path true with
    | .ok _ | .error .isDirectory => return none
    | .error e => return some ("cannot touch '" ++ path ++ "': " ++ reason e)

def mkdirOptions : Options where
  flags := "pv"
  valued := "m"
  names := [("mode", 'm'), ("parents", 'p'), ("verbose", 'v')]

def mkdir : Tool := withOptions "mkdir" mkdirOptions fun call =>
  forPaths "mkdir" noOperand call.operands fun path => do
    let full := (← get).pathFrom path
    let failed? ← Act.changeFiles fun tree =>
      if call.has 'p' then tree.makeDirectories full else tree.makeDirectory full
    if failed?.isNone then note (call.has 'v') ("mkdir: created directory '" ++ path ++ "'")
    return failed?.map fun e => "cannot create directory '" ++ path ++ "': " ++ reason e

/-- The tree without a place and all places in it. -/
def without (tree : Tree) (place : Place) : Tree :=
  ⟨tree.entries.filter fun (p, _) => !place.isPrefixOf p⟩

/-- Removes a directory in which there is nothing; the reason if that is not possible. -/
def removeDirectory (path : String) : Act (Option String) := do
  let m ← get
  let full := m.pathFrom path
  match m.tree.at? full, m.tree.locate full with
  | .ok .directory, .ok place =>
    if place.IsAbove then return some "Device or resource busy"
    else if !(m.tree.within place).isEmpty then return some "Directory not empty"
    else
      set { m with tree := without m.tree place }
      return none
  | .ok (.file _), _ => return some (reason .notDirectory)
  | .error e, _ | _, .error e => return some (reason e)

def rmdirOptions : Options where
  flags := "pv!"
  names := [("ignore-fail-on-non-empty", '!'), ("parents", 'p'), ("verbose", 'v')]

/-- Removes directories in which there is nothing. -/
def rmdir : Tool := withOptions "rmdir" rmdirOptions fun call =>
  let chain (path : Octets) : List Octets :=
    path :: if call.has 'p' then ((Path.above (Octets.toText path)).filter (· ≠ "")).map
      Octets.ofText else []
  forPaths "rmdir" noOperand (call.operands.flatMap chain) fun path => do
    return (← removeDirectory path).map fun r => "failed to remove '" ++ path ++ "': " ++ r

def rmOptions : Options where
  flags := "dfiIrRv"
  names := [("dir", 'd'), ("force", 'f'), ("recursive", 'r'), ("verbose", 'v')]

/-- Removes files, and directories if all that is in them is to be removed as well. -/
def rm : Tool := withOptions "rm" rmOptions fun call => do
  if call.operands.isEmpty && call.has 'f' then return 0
  forPaths "rm" noOperand call.operands fun path => do
    let m ← get
    let full := m.pathFrom path
    let deep := call.has 'r' || call.has 'R'
    let isDirectory := m.tree.isDirectory full
    let failed? : Option String ←
      if isDirectory && !deep && call.has 'd' then removeDirectory path
      else do
        let e? ← Act.changeFiles fun tree =>
          if deep && isDirectory then (tree.locate full).map (without tree) else tree.remove full
        pure ((e?.filter fun e => !(call.has 'f' && (e == .notFound || e == .notDirectory))).map
          reason)
    if failed?.isNone then
      note (call.has 'v')
        ("removed " ++ (if isDirectory then "directory " else "") ++ "'" ++ path ++ "'")
    return failed?.map fun r => "cannot remove '" ++ path ++ "': " ++ r

/-- What a clause of a mode says about the right to start a file; none if it says nothing of it. -/
def startClause? (clause : Octets) : Option Bool :=
  let who := clause.takeWhile "ugoa".toList.contains
  match clause.drop who.length with
  | '+' :: rights => if rights.contains 'x' then some true else none
  | '=' :: rights => some (rights.contains 'x')
  | '-' :: rights => if rights.contains 'x' then some false else none
  | _ => none

def isOctalMode (word : Octets) : Bool :=
  !word.isEmpty && word.length ≤ 5 && word.all fun c => '0' ≤ c && c ≤ '7'

def isModeClause (clause : Octets) : Bool :=
  let who := clause.takeWhile "ugoa".toList.contains
  match clause.drop who.length with
  | c :: rights => "+-=".toList.contains c && rights.all "rwxXstugo+-=".toList.contains
  | [] => false

def isMode (word : Octets) : Bool :=
  isOctalMode word || (fieldsOf ',' word).all isModeClause

/-- Files of a mode can be started; none if the mode says nothing of it. -/
def startMode? (word : Octets) : Option Bool :=
  if isOctalMode word then some (word.any fun c => (c.toNat - 0x30) % 2 = 1)
  else ((fieldsOf ',' word).filterMap startClause?).getLast?

/-- Lets files be started, or lets them no longer be. -/
def chmod : Tool := fun args => do
  match args.filter fun a => !(["-R", "-v", "-f", "-c"].contains (String.ofList a)) with
  | [] => decline "chmod" "missing operand"
  | [word] => decline "chmod" ("missing operand after " ++ shown word)
  | mode :: paths =>
    if !isMode mode then return ← decline "chmod" ("invalid mode: " ++ shown mode)
    forPaths "chmod" noOperand paths fun path => do
      let m ← get
      let full := m.pathFrom path
      match m.tree.at? full, m.tree.locate full with
      | .error e, _ | _, .error e => return some ("cannot access '" ++ path ++ "': " ++ reason e)
      | .ok _, .ok place =>
        let others := m.startable.filter (· ≠ place)
        match startMode? mode with
        | some true => set { m with startable := place :: others }
        | some false => set { m with startable := others }
        | none => pure ()
        return none

/-! ## Copying and moving -/

/-- The path that a file gets at its destination. -/
def destination (tree : Tree) (source target : String) : String :=
  if tree.isDirectory target then
    Path.join target (((Path.split source).filter (· ≠ "")).getLast?.getD "")
  else target

/-- The tree with all that is at a place also at another place. -/
def copyAll (tree : Tree) (source image : Place) : Tree :=
  (tree.entries.filter fun (p, _) => source.isPrefixOf p).foldl
    (fun t (p, n) => t.put (image ++ p.drop source.length) n) tree

/-- What a tool does with files: it copies them, copies directories with all that is in them, or
moves them. -/
inductive Transfer
  | copy
  | copyDeep
  | move
  deriving DecidableEq

/-- Copies or moves a file to a path; the reason if that is not possible. -/
def transferOne (t : Transfer) (path source image : String) : Act (Option String) := do
  let m ← get
  let failedTo (e : IoError) : String :=
    if t = .move then "cannot move '" ++ path ++ "' to '" ++ image ++ "': " ++ reason e
    else "cannot create regular file '" ++ image ++ "': " ++ reason e
  let full := m.pathFrom image
  match m.tree.at? source, m.tree.locate source, m.tree.locate full with
  | .error e, _, _ | _, .error e, _ => return some ("cannot stat '" ++ path ++ "': " ++ reason e)
  | _, _, .error e => return some (failedTo e)
  | .ok n, .ok old, .ok new =>
    if old = new then
      return some ("'" ++ path ++ "' and '" ++ image ++ "' are the same file")
    match n with
    | .directory =>
      if t = .copy then return some ("-r not specified; omitting directory '" ++ path ++ "'")
      else if (m.tree.node? new.dropLast).isNone then return some (failedTo .notFound)
      else
        let tree := copyAll m.tree old new
        let tree := if t = Transfer.move then without tree old else tree
        set { m with tree := tree }
        return none
    | .file bytes =>
      let failed? ← Act.changeFiles fun tree => do
        let tree ← tree.writeBytes full bytes
        if t = Transfer.move then tree.remove source else return tree
      return failed?.map failedTo

def transferOptions : Options where
  flags := "abdfiLnpPrRTuv"
  valued := "t"
  names := [("archive", 'a'), ("force", 'f'), ("no-clobber", 'n'), ("recursive", 'r'),
    ("target-directory", 't'), ("verbose", 'v')]

def transfer (tool : String) (t : Transfer) : Tool := withOptions tool transferOptions fun call => do
  let t := if t = .copy && ['r', 'R', 'a'].any call.has then .copyDeep else t
  let paths := match call.value? 't' with
    | some target => call.operands ++ [target]
    | none => call.operands
  match paths, paths.getLast? with
  | [], _ | _, none => decline tool "missing file operand"
  | [path], _ => decline tool ("missing destination file operand after " ++ shown path)
  | _ :: _ :: more, some last => do
    let target := Octets.toText last
    let m ← get
    if !more.isEmpty && !m.tree.isDirectory (m.pathFrom target) then
      let e := match m.tree.at? (m.pathFrom target) with
        | .ok _ => IoError.notDirectory
        | .error e => e
      refuse tool ("target '" ++ target ++ "': " ++ reason e)
    else
      forPaths tool noOperand paths.dropLast fun path => do
        let m ← get
        let source := m.pathFrom path
        let image := if m.tree.isDirectory (m.pathFrom target) then
            Path.join target (((Path.split path).filter (· ≠ "")).getLast?.getD "")
          else target
        if call.has 'n' && m.tree.leadsSomewhere (m.pathFrom image) then return none
        let failed? ← transferOne t path source image
        if failed?.isNone then
          note (call.has 'v') ((if t = .move then "renamed " else "") ++
            "'" ++ path ++ "' -> '" ++ image ++ "'")
        return failed?

def cp : Tool := transfer "cp" .copy

def mv : Tool := transfer "mv" .move

def truncate : Tool :=
  withOptions "truncate" { flags := "co", valued := "sr", names := [("size", 's')] } fun call => do
    match (call.value? 's').bind scaled? with
    | none => decline "truncate" "you must specify either '--size' or '--reference'"
    | some size =>
      forPaths "truncate" "missing file operand" call.operands fun path => do
        let before ← Act.readFile path
        let cs := (before.toOption.getD []).take size
        let failed? ← writeFile (Octets.ofText path) false
          (cs ++ List.replicate (size - cs.length) '\x00')
        return failed?.map fun e => "cannot open '" ++ path ++ "' for writing: " ++ reason e

/-! ## Listing -/

def lsOptions : Options where
  flags := "1aACdfFGhiklLmnopqQrRsStuUx"
  names := [("all", 'a'), ("almost-all", 'A'), ("directory", 'd'), ("recursive", 'R'),
    ("reverse", 'r')]

def listed (call : Call) (tree : Tree) (place : Place) : List String :=
  let names := (tree.within place).filterMap List.getLast?
  let hidden := call.has 'a' || call.has 'A'
  let visible := names.filter fun n => hidden || n.toList.head? != some '.'
  let all := (if call.has 'a' then [".", ".."] else []) ++ visible
  let sorted := all.mergeSort fun a b => !Octets.precedes (Octets.ofText b) (Octets.ofText a)
  if call.has 'r' then sorted.reverse else sorted

/-- A name as it is listed; a slash marks directories if marks are wanted. -/
def listedName (call : Call) (isDirectory : Bool) (name : String) : String :=
  let name := if call.has 'Q' then "\"" ++ name ++ "\"" else name
  if isDirectory && (call.has 'p' || call.has 'F') then name ++ "/" else name

/-- The lines of a directory, and those of the directories in it if they are wanted; `titled` if the
path stands in front. -/
def listing (call : Call) (tree : Tree) (titled : Bool) :
    Nat → String → Place → List (List String)
  | 0, _, _ => []
  | fuel + 1, path, place =>
    let names := listed call tree place
    let isDirectory (n : String) : Bool :=
      n = "." || n = ".." || tree.node? (place ++ [n]) == some .directory
    let own := (if titled then [path ++ ":"] else []) ++
      names.map fun n => listedName call (isDirectory n) n
    own :: if call.has 'R' then
      (names.filter fun n => isDirectory n && n ≠ "." && n ≠ "..").flatMap fun n =>
        listing call tree titled fuel (Path.join path n) (place ++ [n])
    else []

def ls : Tool := withOptions "ls" lsOptions (fun call => do
  let m ← get
  let paths := call.operands.map Octets.toText
  let paths := if paths.isEmpty then ["."] else paths
  let mut status := 0
  let mut files := []
  let mut directories := []
  for path in paths do
    let full := m.pathFrom path
    match m.tree.at? full, m.tree.locate full with
    | .ok .directory, .ok place =>
      if call.has 'd' then files := files ++ [listedName call true path]
      else directories := directories ++ [(path, place)]
    | .error e, _ | _, .error e =>
      Act.complain ("ls: cannot access '" ++ path ++ "': " ++ reason e)
      status := 2
    | .ok (.file _), _ => files := files ++ [listedName call false path]
  let order {α : Type} (key : α → String) (xs : List α) : List α :=
    let sorted := xs.mergeSort fun a b =>
      !Octets.precedes (Octets.ofText (key b)) (Octets.ofText (key a))
    if call.has 'r' then sorted.reverse else sorted
  let titled := 1 < paths.length || call.has 'R'
  let blocks := (order Prod.fst directories).flatMap fun (path, place) =>
    listing call m.tree titled (m.tree.entries.length + 1) path place
  let blocks := if files.isEmpty then blocks else order id files :: blocks
  let text := List.intercalate [""] blocks
  finishing status (text.flatMap fun l => Octets.ofText l ++ ['\n'])) 2

end Tool

end Punctual.Shell
