import Punctual.Shell.Digest
import Punctual.Shell.Tool.Options

/-!
# Counting and checking

Inputs are counted, by lines, words and octets, or summed up in a digest.
-/

namespace Punctual.Shell

namespace Tool

/-! ## Counts -/

def isGap (c : Char) : Bool :=
  c = ' ' || ('\t' ≤ c && c ≤ '\r')

def wordCount (cs : Octets) : Nat :=
  (go false cs)
where
  go (inWord : Bool) : Octets → Nat
    | [] => 0
    | c :: cs => (if !inWord && !isGap c then 1 else 0) + go (!isGap c) cs

/-- The greatest width of a line; `width` is that of the line so far. -/
def greatestWidth (width : Nat) : Octets → Nat
  | [] => width
  | c :: cs =>
    if c = '\n' || c = '\r' || c = '\x0c' then max width (greatestWidth 0 cs)
    else if c = '\t' then greatestWidth (width + 8 - width % 8) cs
    else greatestWidth (if ' ' ≤ c && c ≤ '~' then width + 1 else width) cs

/-- The letters of counts, in the order in which counts are shown. -/
def countLetters : List Char := ['l', 'w', 'm', 'c', 'L']

def countsOf (cs : Octets) : List Nat :=
  [cs.count '\n', wordCount cs, cs.length, cs.length, greatestWidth 0 cs]

def addCounts (xs ys : List Nat) : List Nat :=
  List.zipWith (· + ·) (xs.take 4) (ys.take 4) ++ List.zipWith max (xs.drop 4) (ys.drop 4)

def wcOptions : Options where
  flags := "clLmw"
  names := [("bytes", 'c'), ("chars", 'm'), ("lines", 'l'), ("max-line-length", 'L'),
    ("words", 'w')]

/-- A line of counts, each filled up to a width. -/
def countLine (call : Call) (width : Nat) (counts : List Nat) (name : Octets) : Octets :=
  let wanted (c : Char) : Bool :=
    if call.options.isEmpty then c ∈ ['l', 'w', 'c'] else call.has c
  let chosen := (countLetters.zip counts).filter fun (c, _) => wanted c
  let row := List.intercalate [' '] (chosen.map fun (_, n) => padded width (Octets.ofNat n))
  row ++ (if name.isEmpty then [] else ' ' :: name) ++ ['\n']

/-- The size of the file that a path names, if it is no device and no stream. -/
def sizeOf? (path : Octets) : Act (Option Nat) := do
  let text := Octets.toText path
  if text ∈ inputPaths ∨ path = [] then
    match ← Act.channel 0 with
    | .source k =>
      let m ← get
      let (cs, _) ← Act.unread k
      return if m.fileSources.contains k then some cs.length else none
    | _ => return none
  else
    match ← Act.readFile text with
    | .ok cs => return some cs.length
    | .error _ => return none

def countWidth (call : Call) : Act Nat := do
  let letters := countLetters.filter call.has
  if call.operands.length ≤ 1 && letters.length = 1 then return 1
  let paths := if call.operands.isEmpty then [[]] else call.operands
  let sizes ← paths.mapM sizeOf?
  let m ← get
  let isOther (path : Octets) (size? : Option Nat) : Bool :=
    size?.isNone &&
      (path.isEmpty || inputPaths.contains (Octets.toText path) ||
        m.tree.isDirectory (m.pathFrom (Octets.toText path)))
  let width := (Octets.ofNat ((sizes.map fun s => s.getD 0).foldl (· + ·) 0)).length
  return if (paths.zip sizes).any fun (p, s) => isOther p s then max 7 width else width

def wc : Tool := withOptions "wc" wcOptions fun call => do
  let width ← countWidth call
  let paths := if call.operands.isEmpty then [[]] else call.operands
  let mut status := 0
  let mut total := [0, 0, 0, 0, 0]
  let mut out := []
  for path in paths do
    match ← contentOf (if path.isEmpty then ['-'] else path) with
    | .ok cs =>
      let counts := countsOf cs
      total := addCounts total counts
      out := out ++ countLine call width counts path
    | .error e =>
      Act.complain (report "wc: " (Octets.toText path) e)
      status := 1
      if e = .isDirectory then out := out ++ countLine call width [0, 0, 0, 0, 0] path
  if 1 < call.operands.length then
    out := out ++ countLine call width total "total".toList
  finishing status out

/-! ## Digests -/

def digestOptions : Options where
  flags := "bctz!"
  names := [("binary", 'b'), ("check", 'c'), ("tag", '!'), ("text", 't')]

/-- A line of a list of digests: the digest and the path behind it. -/
def digestLine? (line : Octets) : Option (Octets × Octets) :=
  let digest := line.takeWhile (· ≠ ' ')
  match line.dropWhile (· ≠ ' ') with
  | ' ' :: mark :: path =>
    if mark = ' ' || mark = '*' then some (digest.map Char.toLower, path) else none
  | _ => none

/-- Checks the files of a list of digests; gives what is printed and how many files are not as the
list says. -/
def checkDigests (digest : Octets → Octets) (list : Octets) : Act (Octets × Nat) := do
  let mut out := []
  let mut wrong := 0
  for (expected, path) in (linesOf list).filterMap digestLine? do
    match ← contentOf path with
    | .ok cs =>
      let isSame := digest cs == expected
      out := out ++ path ++ (if isSame then ": OK\n" else ": FAILED\n").toList
      if !isSame then wrong := wrong + 1
    | .error _ =>
      out := out ++ path ++ ": FAILED open or read\n".toList
      wrong := wrong + 1
  return (out, wrong)

def digestTool (tool title : String) (digest : Octets → Octets) : Tool :=
  withOptions tool digestOptions fun call => do
    let paths := if call.operands.isEmpty then [['-']] else call.operands
    let (inputs, status) ← contents (report (tool ++ ": ")) paths
    if call.has 'c' then
      let mut out := []
      let mut wrong := 0
      for (_, list) in inputs do
        let (more, n) ← checkDigests digest list
        out := out ++ more
        wrong := wrong + n
      if 0 < wrong then
        Act.complain (tool ++ ": WARNING: " ++ toString wrong ++
          (if wrong = 1 then " computed checksum did NOT match"
            else " computed checksums did NOT match"))
      finishing (if 0 < wrong then 1 else status) out
    else
      let row (name cs : Octets) : Octets :=
        if call.has '!' then
          title.toList ++ " (".toList ++ name ++ ") = ".toList ++ digest cs ++ ['\n']
        else digest cs ++ [' ', if call.has 'b' then '*' else ' '] ++ name ++ ['\n']
      finishing status (inputs.flatMap fun (name, cs) => row name cs)

def md5sum : Tool :=
  digestTool "md5sum" "MD5" fun cs => Digest.hex (Digest.digest128 (Octets.toBytes cs))

def sha1sum : Tool :=
  digestTool "sha1sum" "SHA1" fun cs => Digest.hex (Digest.digest160 (Octets.toBytes cs))

def sha256sum : Tool :=
  digestTool "sha256sum" "SHA256" fun cs => Digest.hex (Digest.digest256 (Octets.toBytes cs))

/-- Prints the checks and lengths of its inputs. -/
def cksum : Tool := withOptions "cksum" { flags := "" } fun call => do
  let (inputs, status) ← contents (report "cksum: ") call.operands
  finishing status (inputs.flatMap fun (name, cs) =>
    Octets.ofNat (Digest.check32 (Octets.toBytes cs)).toNat ++ [' '] ++ Octets.ofNat cs.length ++
      (if name.isEmpty then [] else ' ' :: name) ++ ['\n'])

end Tool

end Punctual.Shell
