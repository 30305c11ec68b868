import Punctual.Files.Path
import Punctual.Shell.Tool.Options

/-!
# Differences

Two files are compared, octet by octet or line by line. Lines that both files have in the same order
are kept, as many as possible; all others are dropped from the first file or come from the second.
-/

namespace Punctual.Shell

namespace Tool

/-! ## Octets -/

/-- Where two lists of octets differ first: the octets and lines before, and whether one has ended
there. -/
inductive Difference
  | none
  | at (octets lines : Nat)
  /-- The first or the second list ends; whether a line feed came last. -/
  | ended (first : Bool) (octets lines : Nat) (atLineStart : Bool)

/-- Compares octets; `fresh` tells that a line feed came last. -/
def difference (octets lines : Nat) (fresh : Bool) : Octets → Octets → Difference
  | [], [] => .none
  | [], _ :: _ => .ended true octets lines fresh
  | _ :: _, [] => .ended false octets lines fresh
  | x :: xs, y :: ys =>
    if x = y then
      difference (octets + 1) (if x = '\n' then lines + 1 else lines) (x == '\n') xs ys
    else .at octets lines

def cmpOptions : Options where
  flags := "bls"
  valued := "in"
  names := [("print-bytes", 'b'), ("ignore-initial", 'i'), ("verbose", 'l'), ("bytes", 'n'),
    ("quiet", 's'), ("silent", 's')]

/-- Says that a file ends before the other one; `withLine` if the line is told. -/
def endReport (name : Octets) (octets lines : Nat) (atLineStart withLine : Bool) : String :=
  let text := "cmp: EOF on " ++ Octets.toText name
  if octets = 0 then text ++ " which is empty"
  else
    let place := text ++ " after byte " ++ toString octets
    if !withLine then place
    else if atLineStart then place ++ ", line " ++ toString lines
    else place ++ ", in line " ++ toString (lines + 1)

/-- The octets that differ, with their numbers. -/
def differing (xs ys : Octets) : List (Nat × Char × Char) :=
  ((xs.zip ys).zipIdx 1).filterMap fun ((x, y), n) => if x = y then none else some (n, x, y)

def declineCompare (tool text : String) : Act Nat := do
  Act.complain (tool ++ ": " ++ text)
  Act.complain (tool ++ ": Try '" ++ tool ++ " --help' for more information.")
  return 2

def cmp : Tool := fun args => do
  match cmpOptions.read args with
  | .error e => declineCompare "cmp" e.message
  | .ok call =>
    match call.operands with
    | [] => declineCompare "cmp" "missing operand after 'cmp'"
    | left :: rest => do
      let right := rest.head?.getD ['-']
      let silent := call.has 's'
      let failed (path : Octets) (e : IoError) : Act Nat := do
        if !(silent && e = .notFound) then Act.complain (report "cmp: " (Octets.toText path) e)
        return 2
      match ← contentOf left, ← contentOf right with
      | .error e, _ => failed left e
      | .ok _, .error e => failed right e
      | .ok xs, .ok ys => do
        let number (letter : Char) : Option Nat := (call.value? letter).bind Text.nat?
        let part (cs : Octets) : Octets :=
          let cs := cs.drop ((number 'i').getD 0)
          ((number 'n').map cs.take).getD cs
        let (xs, ys) := (part xs, part ys)
        if call.has 'l' then
          let width := (Octets.ofNat (min xs.length ys.length)).length
          let octal (c : Char) : Octets := padded 3 (Nat.toDigits 8 c.toNat)
          let rows := differing xs ys
          let _ ← Act.write (rows.flatMap fun (n, x, y) =>
            padded width (Octets.ofNat n) ++ [' '] ++ octal x ++ [' '] ++ octal y ++ ['\n'])
          if xs.length ≠ ys.length then
            let name := if xs.length < ys.length then left else right
            Act.complain (endReport name (min xs.length ys.length) 0 false false)
          return if rows.isEmpty && xs.length = ys.length then 0 else 1
        else
          match difference 0 0 false xs ys with
          | .none => return 0
          | .at octets lines =>
            if !silent then
              let _ ← Act.write (left ++ [' '] ++ right ++ " differ: char ".toList ++
                Octets.ofNat (octets + 1) ++ ", line ".toList ++ Octets.ofNat (lines + 1) ++ ['\n'])
            return 1
          | .ended first octets lines atLineStart =>
            if !silent then
              Act.complain (endReport (if first then left else right) octets lines atLineStart true)
            return 1

/-! ## Lines -/

/-- What becomes of a line. -/
inductive LineStep
  | kept (x y : Octets)
  | dropped (x : Octets)
  | added (y : Octets)

/-- The lengths of the longest lists of lines that the ends of two files have in common: a row for
each line of the first file, in which a number stands for each line of the second. -/
def commonLengths (same : Octets → Octets → Bool) (xs ys : List Octets) : Array (Array Nat) :=
  let width := ys.length
  let lines := ys.toArray
  let row (x : Octets) (below : Array Nat) : Array Nat :=
    ((List.range width).reverse.foldl (fun (row : List Nat) j =>
      let n := if same x (lines.getD j []) then below.getD (j + 1) 0 + 1
        else max (below.getD j 0) (row.head?.getD 0)
      n :: row) [0]).toArray
  let rows := xs.foldr (fun x (rows : List (Array Nat)) =>
    row x (rows.head?.getD #[]) :: rows) [Array.replicate (width + 1) 0]
  rows.toArray

/-- The steps that lead from one file to another, by the lengths of what their ends have in common. -/
def stepsAlong (same : Octets → Octets → Bool) (lengths : Array (Array Nat)) :
    Nat → Nat → Nat → List Octets → List Octets → List LineStep
  | 0, _, _, _, _ => []
  | _, _, _, [], ys => ys.map .added
  | _, _, _, xs, [] => xs.map .dropped
  | fuel + 1, i, j, x :: xs, y :: ys =>
    if same x y then .kept x y :: stepsAlong same lengths fuel (i + 1) (j + 1) xs ys
    else
      let length (i j : Nat) : Nat := (lengths.getD i #[]).getD j 0
      if length i (j + 1) ≤ length (i + 1) j then
        .dropped x :: stepsAlong same lengths fuel (i + 1) j xs (y :: ys)
      else .added y :: stepsAlong same lengths fuel i (j + 1) (x :: xs) ys

/-- The steps that lead from one file to another. -/
def lineSteps (same : Octets → Octets → Bool) (xs ys : List Octets) : List LineStep :=
  stepsAlong same (commonLengths same xs ys) (xs.length + ys.length + 1) 0 0 xs ys

/-- Lines that are dropped and added at one place: the lines before in each file. -/
structure Hunk where
  left : Nat
  right : Nat
  dropped : List Octets
  added : List Octets

def hunksOf (left right : Nat) : List LineStep → List Hunk
  | [] => []
  | .kept .. :: steps => hunksOf (left + 1) (right + 1) steps
  | .dropped x :: steps =>
    match hunksOf (left + 1) right steps with
    | h :: hs =>
      if h.left = left + 1 ∧ h.right = right then
        { h with left := left, dropped := x :: h.dropped } :: hs
      else ⟨left, right, [x], []⟩ :: h :: hs
    | [] => [⟨left, right, [x], []⟩]
  | .added y :: steps =>
    match hunksOf left (right + 1) steps with
    | h :: hs =>
      if h.left = left ∧ h.right = right + 1 then
        { h with right := right, added := y :: h.added } :: hs
      else ⟨left, right, [], [y]⟩ :: h :: hs
    | [] => [⟨left, right, [], [y]⟩]

/-- A line behind a mark; the end of a file without a line feed is told. -/
def marked (mark : String) (l : Octets) : Octets :=
  mark.toList ++ l ++
    if l.getLast? = some '\n' then [] else "\n\\ No newline at end of file\n".toList

/-- The numbers of some lines behind others, or the number of the line before if there are none. -/
def lineRange (before count : Nat) : Octets :=
  if count ≤ 1 then Octets.ofNat (before + count)
  else Octets.ofNat (before + 1) ++ [','] ++ Octets.ofNat (before + count)

def Hunk.change (h : Hunk) : Octets :=
  let letter := if h.dropped.isEmpty then 'a' else if h.added.isEmpty then 'd' else 'c'
  lineRange h.left h.dropped.length ++ [letter] ++ lineRange h.right h.added.length ++ ['\n'] ++
    h.dropped.flatMap (marked "< ") ++
    (if letter = 'c' then "---\n".toList else []) ++ h.added.flatMap (marked "> ")

/-- Hunks so near to one another that they are shown together. -/
def nearby (context : Nat) : List Hunk → List (List Hunk)
  | [] => []
  | h :: hs =>
    match nearby context hs with
    | (k :: ks) :: rest =>
      if k.left ≤ h.left + h.dropped.length + 2 * context then (h :: k :: ks) :: rest
      else [h] :: (k :: ks) :: rest
    | rest => [h] :: rest

/-- The numbers of a block of lines as it is named in front of it. -/
def blockRange (before count : Nat) : Octets :=
  if count = 1 then Octets.ofNat (before + 1)
  else Octets.ofNat (if count = 0 then before else before + 1) ++ [','] ++ Octets.ofNat count

/-- Hunks with lines of context around them; `xs` are the lines of the first file. -/
def blockOf (context : Nat) (xs : List Octets) (hs : List Hunk) : Octets :=
  match hs.head?, hs.getLast? with
  | some first, some last =>
    let start := first.left - context
    let stop := min xs.length (last.left + last.dropped.length + context)
    let rightStart := first.right - (first.left - start)
    let added := (hs.map fun h => h.added.length).foldl (· + ·) 0
    let gone := (hs.map fun h => h.dropped.length).foldl (· + ·) 0
    let count := stop - start
    let (place, body) := hs.foldl (fun (place, out) h =>
      (h.left + h.dropped.length,
        out ++ ((xs.drop place).take (h.left - place)).flatMap (marked " ") ++
          h.dropped.flatMap (marked "-") ++ h.added.flatMap (marked "+"))) (start, [])
    "@@ -".toList ++ blockRange start count ++ " +".toList ++
      blockRange rightStart (count + added - gone) ++ " @@\n".toList ++ body ++
      ((xs.drop place).take (stop - place)).flatMap (marked " ")
  | _, _ => []

def diffOptions : Options where
  flags := "abBiqrsuw"
  valued := "UL"
  names := [("brief", 'q'), ("ignore-all-space", 'w'), ("ignore-case", 'i'),
    ("ignore-space-change", 'b'), ("label", 'L'), ("report-identical-files", 's'),
    ("unified", 'u')]

/-- Runs of blanks as one blank, and none at the end. -/
def fewerBlanks : Octets → Octets
  | [] => []
  | c :: cs =>
    match fewerBlanks cs with
    | rest =>
      if !isGap c then c :: rest
      else if rest.isEmpty then []
      else if rest.head? = some ' ' then rest
      else ' ' :: rest
where
  isGap (c : Char) : Bool := isLayout c || c == '\r'

def diffImage (call : Call) (l : Octets) : Octets :=
  let l := if call.has 'w' then l.filter fun c => !isLayout c && c != '\r'
    else if call.has 'b' then fewerBlanks l else l
  if call.has 'i' then l.map Char.toLower else l

/-- The path of a file that is compared with another: in a directory, the one of the same name. -/
def counterpart (path other : Octets) : Act Octets := do
  let m ← get
  let isDirectory (p : Octets) : Bool := m.tree.isDirectory (m.pathFrom (Octets.toText p))
  if isDirectory path && !isDirectory other then
    return path ++ ['/'] ++ Octets.ofText ((Path.split (Octets.toText other)).getLast?.getD "")
  else return path

def diff : Tool := fun args => do
  match diffOptions.read args with
  | .error e => declineCompare "diff" e.message
  | .ok call =>
    match call.operands with
    | [] => declineCompare "diff" "missing operand after 'diff'"
    | [a] => declineCompare "diff" ("missing operand after " ++ shown a)
    | _ :: _ :: c :: _ => declineCompare "diff" ("extra operand " ++ shown c)
    | [a, b] => do
      let left ← counterpart a b
      let right ← counterpart b a
      match ← contentOf left, ← contentOf right with
      | .ok xs, .ok ys => do
        let (ls, rs) := (rawLines xs, rawLines ys)
        let same (x y : Octets) : Bool := x == y || diffImage call x == diffImage call y
        let hunks := hunksOf 0 0 (lineSteps same ls rs)
        let names := left ++ " and ".toList ++ right
        if hunks.isEmpty then
          if call.has 's' then
            let _ ← Act.write ("Files ".toList ++ names ++ " are identical\n".toList)
          return 0
        if call.has 'q' then
          let _ ← Act.write ("Files ".toList ++ names ++ " differ\n".toList)
        else if call.has 'u' || call.has 'U' then
          let labels := call.values 'L'
          let context := ((call.value? 'U').bind Text.nat?).getD 3
          let _ ← Act.write ("--- ".toList ++ (labels[0]?).getD left ++ "\n+++ ".toList ++
            (labels[1]?).getD right ++ ['\n'] ++
            (nearby context hunks).flatMap (blockOf context ls))
        else
          let _ ← Act.write (hunks.flatMap Hunk.change)
        return 1
      | .error .isDirectory, .error .isDirectory => return 0
      | l, r =>
        for (path, content) in [(left, l), (right, r)] do
          match content with
          | .error e => Act.complain (report "diff: " (Octets.toText path) e)
          | .ok _ => pure ()
        return 2

end Tool

end Punctual.Shell
