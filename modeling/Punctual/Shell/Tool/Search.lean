import Punctual.Shell.Edit.Reader
import Punctual.Shell.Edit.Run
import Punctual.Shell.Tool.Copy

/-!
# Searching and editing

Lines are selected and changed by regular expressions.
-/

namespace Punctual.Shell

namespace Tool

/-! ## Searching -/

def grepOptions : Options where
  flags := "abcEFGhHiIlLnoPqrRsTuUvwxyzZ"
  valued := "ABCefm%!^"
  attached := "#"
  names := [("after-context", 'A'), ("basic-regexp", 'G'), ("before-context", 'B'),
    ("byte-offset", 'b'), ("color", '#'), ("colour", '#'), ("context", 'C'), ("count", 'c'),
    ("exclude", '!'), ("extended-regexp", 'E'), ("file", 'f'), ("files-with-matches", 'l'),
    ("files-without-match", 'L'), ("fixed-strings", 'F'), ("ignore-case", 'i'), ("include", '%'), ("label", '^'),
    ("invert-match", 'v'), ("line-number", 'n'), ("line-regexp", 'x'), ("max-count", 'm'),
    ("no-filename", 'h'), ("no-messages", 's'), ("null", 'Z'), ("null-data", 'z'),
    ("only-matching", 'o'), ("perl-regexp", 'P'), ("quiet", 'q'), ("recursive", 'r'),
    ("regexp", 'e'), ("silent", 'q'), ("text", 'a'), ("with-filename", 'H'),
    ("word-regexp", 'w')]

/-- A line of an input: its number, the octets before it, and its own octets. -/
structure NumberedLine where
  number : Nat
  offset : Nat
  line : Octets

def placesFrom (number offset : Nat) : List Octets → List NumberedLine
  | [] => []
  | l :: ls => ⟨number, offset, l⟩ :: placesFrom (number + 1) (offset + l.length + 1) ls

/-- A search: the expression, and the flags that say what is printed. -/
structure Search where
  regex : Option Regex
  call : Call
  /-- Names stand in front of lines. -/
  named : Bool
  after : Nat
  before : Nat
  limit : Option Nat

namespace Search

def isHit (s : Search) (line : Octets) : Bool :=
  (s.regex.any fun r => r.occursIn line) != s.call.has 'v'

/-- The lines that are searched for, up to the limit. -/
def hits (s : Search) (ps : List NumberedLine) : List NumberedLine :=
  let all := ps.filter fun p => s.isHit p.line
  (s.limit.map all.take).getD all

/-- All matches of an expression in a line that are not empty, with their offsets. -/
def matchesIn (r : Regex) : Nat → Octets → Octets → List (Nat × Octets)
  | 0, _, _ => []
  | fuel + 1, before, cs =>
    match r.search before cs with
    | none => []
    | some m =>
      match m.found, m.behind with
      | [], [] => []
      | [], c :: rest => matchesIn r fuel (m.before ++ [c]) rest
      | found, behind =>
        (m.before.length, found) :: matchesIn r fuel (m.before ++ found) behind

/-- What stands in front of a line: the name, the number and the offset, each with a mark behind. -/
def lead (s : Search) (name : Octets) (mark : Char) (number offset : Nat) : Octets :=
  (if s.named then name ++ [mark] else []) ++
    (if s.call.has 'n' then Octets.ofNat number ++ [mark] else []) ++
    (if s.call.has 'b' then Octets.ofNat offset ++ [mark] else [])

/-- The lines around those that are searched for, and a line between groups of them. -/
def withContext (s : Search) (name : Octets) (ps hits : List NumberedLine) : List Octets :=
  let isNear (p : NumberedLine) : Bool := hits.any fun h =>
    p.number ≤ h.number + s.after && h.number ≤ p.number + s.before
  let near := ps.filter isNear
  go none near
where
  go (last : Option Nat) : List NumberedLine → List Octets
    | [] => []
    | p :: ps =>
      let gap := if last.any fun n => decide (n + 1 < p.number) then ["--".toList] else []
      let mark := if hits.any fun h => h.number == p.number then ':' else '-'
      gap ++ (s.lead name mark p.number p.offset ++ p.line) :: go (some p.number) ps

def shown (s : Search) (name cs : Octets) (ps hits : List NumberedLine) : List Octets :=
  if s.call.has 'q' then []
  else if s.call.has 'l' then if hits.isEmpty then [] else [name]
  else if s.call.has 'L' then if hits.isEmpty then [name] else []
  else if s.call.has 'c' then
    [(if s.named then name ++ [':'] else []) ++ Octets.ofNat hits.length]
  else if cs.contains '\x00' && !s.call.has 'a' && !s.call.has 'z' then []
  else if s.call.has 'o' then
    if s.call.has 'v' then []
    else hits.flatMap fun p =>
      ((s.regex.map fun r => matchesIn r (p.line.length + 1) [] p.line).getD []).map
        fun (offset, m) => s.lead name ':' p.number (p.offset + offset) ++ m
  else if 0 < s.after + s.before then s.withContext name ps hits
  else hits.map fun p => s.lead name ':' p.number p.offset ++ p.line

end Search

/-- A pattern of the dialect that knows letters for digits, in the extended one. -/
def digitLetters : Octets → Octets
  | '\\' :: 'd' :: cs => "[0-9]".toList ++ digitLetters cs
  | '\\' :: 'D' :: cs => "[^0-9]".toList ++ digitLetters cs
  | '\\' :: c :: cs => '\\' :: c :: digitLetters cs
  | '(' :: '?' :: ':' :: cs => '(' :: digitLetters cs
  | c :: cs => c :: digitLetters cs
  | [] => []

/-- The expression of patterns, one of which is enough, and warnings; what is wrong with the first bad
one. -/
def patternRegex (call : Call) (patterns : List Octets) :
    Except Regex.Flaw (Option Regex × List String) := do
  let anyCase := call.has 'i' || call.has 'y'
  let dialect := call.lastOf? ['E', 'F', 'G', 'P']
  let one (p : Octets) : Except Regex.Flaw Regex.Parsed :=
    if dialect = some 'F' then .ok ⟨Regex.literal anyCase p, []⟩
    else if dialect = some 'E' then Regex.parse .free anyCase p
    else if dialect = some 'P' then Regex.parse .extended anyCase (digitLetters p)
    else Regex.parse .plain anyCase p
  let parsed ← patterns.mapM one
  let warnings := parsed.flatMap Regex.Parsed.warnings
  match parsed.map fun p => Regex.framed (call.has 'x') (call.has 'w') p.regex with
  | [] => return (none, warnings)
  | r :: rs => return (some (rs.foldl .either r), warnings)

/-- The files below a directory, with their paths. -/
def filesBelow (tree : Tree) : Nat → Octets → Place → List Octets
  | 0, _, _ => []
  | fuel + 1, path, place =>
    match tree.node? place with
    | some (.file _) => [path]
    | _ =>
      (tree.within place).flatMap fun p =>
        let name := Octets.ofText (p.getLast?.getD "")
        filesBelow tree fuel (if path.isEmpty then name else path ++ ['/'] ++ name) p

def searchPaths (call : Call) : Act (List Octets) := do
  if !(call.has 'r' || call.has 'R') then return call.operands
  let m ← get
  let below (path : Octets) : List Octets :=
    let full := m.pathFrom (if path.isEmpty then "." else Octets.toText path)
    match m.tree.at? full, m.tree.locate full with
    | .ok .directory, .ok place => filesBelow m.tree (m.tree.entries.length + 1) path place
    | _, _ => [path]
  let pattern (cs : Octets) : List Glob := Glob.ofWord (cs.map (·, false))
  let wanted := (call.values '%').map pattern
  let unwanted := (call.values '!').map pattern
  let isSearched (path : Octets) : Bool :=
    let name := (fieldsOf '/' path).getLast?.getD path
    (wanted.isEmpty || wanted.any fun p => Glob.describes p name) &&
      !unwanted.any fun p => Glob.describes p name
  return ((if call.operands.isEmpty then [[]] else call.operands).flatMap below).filter isSearched

def grepUsage : String :=
  "Usage: grep [OPTION]... PATTERNS [FILE]...\nTry 'grep --help' for more information."

def declineGrep (report : String) : Act Nat := do
  Act.complain (if report = "" then grepUsage else "grep: " ++ report ++ "\n" ++ grepUsage)
  return 2

/-- The arguments in which a number behind a hyphen asks for lines around those that are found. -/
def withContextNumber (args : List Octets) : List Octets :=
  args.flatMap fun
    | '-' :: d :: ds =>
      if (d :: ds).all Char.isDigit then [['-', 'C'], d :: ds] else ['-' :: d :: ds]
    | arg => [arg]

/-- The patterns of a call and its call without them, or what is done without patterns. -/
def patternsOf (call : Call) : Act (Except (Act Nat) (List Octets × Call)) := do
  let mut given := (call.values 'e').flatMap fun p => Text.pieces p
  for path in call.values 'f' do
    match ← contentOf path with
    | .ok cs => given := given ++ linesOf cs
    | .error e => return .error (refuse "grep" (report "" (Octets.toText path) e) 2)
  if call.has 'e' || call.has 'f' then return .ok (given, call)
  else
    match call.operands with
    | [] => return .error (declineGrep "")
    | p :: rest => return .ok (Text.pieces p, { call with operands := rest })

/-- What is said instead of the lines of an input that is no text. -/
def binaryReport (name : Octets) : String :=
  "grep: " ++ Octets.toText name ++ ": binary file matches"

def grep : Tool := fun args => do
  match grepOptions.read (withContextNumber args) with
  | .error e => declineGrep e.message
  | .ok call =>
    match ← patternsOf call with
    | .error act => act
    | .ok (patterns, call) =>
      match patternRegex call patterns with
      | .error f => refuse "grep" f.message 2
      | .ok (regex, warnings) => do
        for text in warnings do
          Act.complain ("grep: warning: " ++ text)
        let paths ← searchPaths call
        let number (letter : Char) : Option Nat := (call.value? letter).bind Text.nat?
        let recursive := call.has 'r' || call.has 'R'
        let named := match call.lastOf? ['h', 'H'] with
          | some c => c = 'H'
          | none => 1 < paths.length || (recursive && paths ≠ call.operands)
        let both := (number 'C').getD 0
        let s : Search := ⟨regex, call, named, (number 'A').getD both, (number 'B').getD both,
          number 'm'⟩
        let standard := (call.value? '^').getD "(standard input)".toList
        let placesOf (cs : Octets) : List NumberedLine :=
          placesFrom 1 0 (if call.has 'z' then fieldsOf '\x00' cs else linesOf cs)
        let enough (cs : Octets) : Bool :=
          let found := (s.hits (placesOf cs)).length
          (0 < found && (call.has 'q' || call.has 'l')) || s.limit.any fun n => decide (n ≤ found)
        let mut status := 0
        let mut found := false
        let mut flows := false
        let mut out := []
        for path in if paths.isEmpty then [['-']] else paths do
          let isInput := path = ['-']
          let content ← if isInput then do
              let (cs, more) ← Act.readFlow enough
              flows := flows || (more && !enough cs)
              pure (.ok cs)
            else contentOf path
          match content with
          | .error e =>
            if !call.has 's' then Act.complain (report "grep: " (Octets.toText path) e)
            status := 2
          | .ok cs =>
            let name := if isInput then standard else path
            let ps := placesOf cs
            let hits := s.hits ps
            found := found || !hits.isEmpty
            out := out ++ s.shown name cs ps hits
            let isTold := ['q', 'l', 'L', 'c', 'a', 'z'].any call.has
            if cs.contains '\x00' && !isTold && !hits.isEmpty then
              let _ ← Act.write (unrecords (call.has 'z') out)
              out := []
              Act.complain (binaryReport name)
        let _ ← Act.write (unrecords (call.has 'z') out)
        if flows then Act.halt .endless
        return if 0 < status && !(found && call.has 'q') then 2 else if found then 0 else 1

/-! ## Editing -/

def sedOptions : Options where
  flags := "nErsuz!"
  valued := "efl"
  attached := "i"
  names := [("expression", 'e'), ("file", 'f'), ("in-place", 'i'), ("null-data", 'z'),
    ("posix", '!'), ("quiet", 'n'), ("regexp-extended", 'E'), ("separate", 's'), ("silent", 'n'),
    ("unbuffered", 'u')]

/-- A part of an edit: its text, and the file that it stands in. -/
structure EditPart where
  text : Octets
  path : Option Octets

/-- What is said about a fault in the parts of an edit. -/
def faultReport (parts : List EditPart) (f : Edit.Fault) : String :=
  let total := (List.intercalate ['\n'] (parts.map EditPart.text)).length
  match f.left with
  | none => place (parts.length - 1) 0 ++ f.text
  | some left => go 0 (total - left) parts ++ f.text
where
  place (i read : Nat) : String :=
    match parts[i]? with
    | some ⟨text, some path⟩ =>
      "file " ++ Octets.toText path ++ " line " ++
        toString (((text.take (read - 1)).count '\n') + 1) ++ ": "
    | _ => "-e expression #" ++ toString (i + 1) ++ ", char " ++ toString read ++ ": "
  go (i read : Nat) : List EditPart → String
    | [] => place i read
    | [_] => place i read
    | p :: ps => if read ≤ p.text.length then place i read else go (i + 1) (read - p.text.length - 1) ps

/-- The parts of the edit that a call asks for, and the call without them. -/
def editParts (call : Call) : Act (Except (Octets × IoError) (List EditPart × Call)) := do
  let mut parts := []
  for (c, v) in call.options do
    if c = 'e' then parts := parts ++ [⟨v, none⟩]
    else if c = 'f' then
      match ← contentOf v with
      | .ok cs =>
        let cs := if cs.getLast? = some '\n' then cs.dropLast else cs
        parts := parts ++ [⟨cs, some v⟩]
      | .error e => return .error (v, e)
  if parts.isEmpty then
    match call.operands with
    | [] => return .ok ([], call)
    | text :: rest => return .ok ([⟨text, none⟩], { call with operands := rest })
  else return .ok (parts, call)

def editLines (mark : Char) (cs : Octets) : List Edit.Line :=
  match (fieldsOf mark cs).reverse with
  | [] => []
  | last :: before =>
    before.reverse.map (⟨·, true⟩) ++ if last.isEmpty then [] else [⟨last, false⟩]

/-- The paths of the files that an edit writes. -/
def editTargets (cmds : List EditCommand) : List Octets :=
  cmds.filterMap fun c => match c.change with
    | .write path | .writeFirst path => some path
    | .replace r => r.target
    | _ => none

/-- The contents of the files that an edit reads. -/
def editSources (cmds : List EditCommand) : Act (List (Octets × Octets)) := do
  let paths := cmds.filterMap fun c => match c.change with
    | .read path => some path
    | _ => none
  paths.mapM fun path => do
    return (path, (← contentOf path).toOption.getD [])

def editInPlace (context : Octets → Edit.Context) (ending : Octets) (paths : List Octets) :
    Act Nat := do
  let mut status := 0
  let mut stored : Edit.Line := ⟨[], true⟩
  for path in paths do
    match ← contentOf path with
    | .error e =>
      Act.complain (report "sed: can't read " (Octets.toText path) e)
      status := 2
    | .ok cs =>
      let o := Edit.run (context path) stored (editLines (context path).mark cs)
      if !o.ends then Act.halt .endless
      stored := o.state.stored
      if !ending.isEmpty then
        let _ ← writeFile (path ++ ending) false cs
      let left := o.state.rest.flatMap (Edit.lineText (context path))
      let _ ← writeFile path false (o.state.output.octets ++ left)
      for (target, out) in o.state.files do
        let _ ← writeFile target true out.octets
      if o.quits then return o.status
  return status

def sed : Tool := withOptions "sed" sedOptions fun call => do
  match ← editParts call with
  | .error (path, e) => refuse "sed" ("couldn't open file " ++ Octets.toText path ++ ": " ++ reason e)
  | .ok ([], _) => refuse "sed" "no script specified"
  | .ok (parts, call) =>
    let dialect : Regex.Dialect :=
      if call.has 'E' || call.has 'r' then .extended else .basic
    let text := List.intercalate ['\n'] (parts.map EditPart.text)
    match Edit.parse dialect text with
    | .error f =>
      if f.text = Regex.Flaw.classOutside.message then refuse "sed" f.text 4
      else refuse "sed" (faultReport parts f)
    | .ok cmds =>
      match Edit.missingLabels cmds with
      | label :: _ => 
        refuse "sed" ("can't find label for jump to \x60" ++ Octets.toText label ++ "'") 4
      | [] => do
        let quiet := call.has 'n' || text.take 3 = "#n\n".toList || text = "#n".toList
        let mark := if call.has 'z' then '\x00' else '\n'
        let sources ← editSources cmds
        let context (name : Octets) : Edit.Context :=
          ⟨cmds.toArray, quiet, mark, name, fun path => (find? path sources).getD []⟩
        for path in editTargets cmds do
          if path ≠ "/dev/stdout".toList then
            let _ ← writeFile path false []
        match call.value? 'i' with
        | some ending => editInPlace context ending call.operands
        | none => do
          let outcome (name : Octets) (inputs : List Octets) : Edit.Outcome :=
            Edit.run (context name) ⟨[], true⟩ (inputs.flatMap (editLines mark))
          let (groups, status, flows) ←
            if call.operands.isEmpty then do
              let (cs, more) ← Act.readFlow fun cs => (outcome ['-'] [cs]).quits
              pure ([(['-'], [cs])], 0, more)
            else do
              let problem : Report := fun path e =>
                if e = .isDirectory then "sed: couldn't edit " ++ path ++ ": not a regular file"
                else report "sed: can't read " path e
              let (inputs, status) ← contents problem call.operands
              let status := if status = 0 then 0 else 2
              let first := (inputs.head?.map Prod.fst).getD ['-']
              pure (if call.has 's' then inputs.map fun (name, cs) => (name, [cs])
                else [(first, inputs.map Prod.snd)], status, false)
          let mut status := status
          for (name, inputs) in groups do
            let o := outcome name inputs
            let _ ← Act.write o.state.output.octets
            for (target, out) in o.state.files do
              let _ ← writeFile target true out.octets
            if !o.ends then Act.halt .endless
            if o.quits then return o.status
            status := max status o.status
          if flows then Act.halt .endless
          return status

end Tool

end Punctual.Shell
