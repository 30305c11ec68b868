import Punctual.Shell.Glob
import Punctual.Shell.Tool.Options
import Punctual.Shell.Written

/-!
# Translating octets

Octets of a set become those at the same place of another set, or are dropped.
-/

namespace Punctual.Shell

namespace Tool

/-! ## Sets -/

/-- A part of a set of a translation. -/
inductive SetPart
  | octets (cs : Octets)
  /-- An octet as often as the other set needs it. -/
  | fill (c : Char)
  | named (name : String) (cs : Octets)

def octetsBetween (a b : Char) : Octets :=
  ((List.range 256).map Char.ofNat).filter fun c => a ≤ c && c ≤ b

/-- The octet at the front, which may be written with a backslash, and the octets behind it. -/
def setOctet : Octets → Option (Char × Octets)
  | [] => none
  | ['\\'] => some ('\\', [])
  | '\\' :: c :: cs =>
    match Written.numbered? false (c :: cs), Written.letter? c with
    | some found, _ => some found
    | none, some d => some (d, cs)
    | none, none => some (c, cs)
  | c :: cs => some (c, cs)

/-- What a bracket begins: an octet that is repeated, or octets that are the same; and the octets behind
its end. -/
def bracketed? (cs : Octets) : Option (SetPart × Octets) :=
  match cs with
  | '[' :: '=' :: c :: '=' :: ']' :: rest => some (.octets [c], rest)
  | '[' :: rest => do
    let (c, rest) ← setOctet rest
    match rest with
    | '*' :: rest =>
      let ds := rest.takeWhile Char.isDigit
      match rest.drop ds.length with
      | ']' :: behind =>
        let base := if ds.head? = some '0' then 8 else 10
        let n := ds.foldl (fun n d => n * base + (d.toNat - 0x30)) 0
        return (if n = 0 then .fill c else .octets (List.replicate n c), behind)
      | _ => none
    | _ => none
  | _ => none

/-- The parts of a set, or what is wrong with it. -/
def setParts : Nat → Octets → Except String (List SetPart)
  | 0, _ => .ok []
  | fuel + 1, cs =>
    match OctetSet.className? cs, bracketed? cs with
    | some (name, rest), _ =>
      match OctetSet.ofClass? name with
      | some rs => do
        let own := rs.flatMap fun (a, b) => octetsBetween a b
        return .named name own :: (← setParts fuel rest)
      | none => .error ("invalid character class '" ++ name ++ "'")
    | none, some (part, rest) => do return part :: (← setParts fuel rest)
    | none, none =>
      match setOctet cs with
      | none => .ok []
      | some (c, '-' :: rest) =>
        match setOctet rest with
        | none => do return .octets [c] :: (← setParts fuel ('-' :: rest))
        | some (d, rest) =>
          if d < c then
            .error ("range-endpoints of '" ++ Octets.toText [c] ++ "-" ++ Octets.toText [d] ++
              "' are in reverse collating sequence order")
          else do return .octets (octetsBetween c d) :: (← setParts fuel rest)
      | some (c, rest) => do return .octets [c] :: (← setParts fuel rest)

/-- The octets of parts; the one that fills is repeated up to a length. -/
def setOctets (length : Nat) (parts : List SetPart) : Octets :=
  let known := (parts.map fun
    | .octets cs | .named _ cs => cs.length
    | .fill _ => 0).foldl (· + ·) 0
  parts.flatMap fun
    | .octets cs | .named _ cs => cs
    | .fill c => List.replicate (length - known) c

/-- A part names a class that has no other one beside it. -/
def SetPart.isFreeClass : SetPart → Bool
  | .named name _ => name ≠ "upper" && name ≠ "lower"
  | _ => false

/-! ## Translating -/

def squeeze (isIn : Char → Bool) : Octets → Octets
  | [] => []
  | c :: cs =>
    match squeeze isIn cs with
    | d :: ds => if c = d ∧ isIn c then d :: ds else c :: d :: ds
    | [] => [c]

def trOptions : Options where
  flags := "cCdst"
  names := [("complement", 'c'), ("delete", 'd'), ("squeeze-repeats", 's'), ("truncate-set1", 't')]
  stopsAtOperand := true

/-- Why the operands of `tr` are too few or too many. -/
def operandFault? (call : Call) : Option String :=
  let deletes := call.has 'd'
  let squeezes := call.has 's'
  let few := if deletes == squeezes then 2 else 1
  let most := if deletes && !squeezes then 1 else 2
  match call.operands with
  | [] => some "missing operand"
  | [a] =>
    if few ≤ 1 then none
    else some ("missing operand after " ++ shown a ++ "\n" ++
      if deletes then "Two strings must be given when both deleting and squeezing repeats."
      else "Two strings must be given when translating.")
  | a :: b :: rest =>
    match (a :: b :: rest).drop most with
    | [] => none
    | extra :: _ => some ("extra operand " ++ shown extra ++
        if most = 1 ∧ rest.isEmpty then
          "\nOnly one string may be given when deleting without squeezing repeats."
        else "")

/-- The sets of a call of `tr`, or what is wrong with them. -/
def trSets (call : Call) : Except String (Octets × Option Octets) := do
  let parts (cs : Octets) : Except String (List SetPart) := setParts (cs.length + 1) cs
  let old := setOctets 0 (← parts (call.operands.head?.getD []))
  let old := if call.has 'c' || call.has 'C' then
      (octetsBetween '\x00' '\xff').filter fun c => !old.contains c
    else old
  match call.operands[1]? with
  | none => return (old, none)
  | some cs =>
    let ps ← parts cs
    let translates := !call.has 'd'
    if translates && ps.any SetPart.isFreeClass then
      .error ("when translating, the only character classes that may appear in\n" ++
        "string2 are 'upper' and 'lower'")
    else
      let new := setOctets old.length ps
      if translates && new.isEmpty && !old.isEmpty && !call.has 't' then
        .error "when not truncating set1, string2 must be non-empty"
      else return (old, some new)

def tr : Tool := withOptions "tr" trOptions fun call => do
  match operandFault? call, trSets call with
  | some text, _ => decline "tr" text
  | none, .error text => refuse "tr" text
  | none, .ok (old, new?) => do
    let translates := !call.has 'd' && new?.isSome
    let new := new?.getD []
    let old := if call.has 't' && translates then old.take new.length else old
    let filled := new ++ List.replicate (old.length - new.length) (new.getLast?.getD ' ')
    let pairs := (old.zip filled).reverse
    let image (c : Char) : Char := ((pairs.find? (·.1 = c)).map Prod.snd).getD c
    let cs ← Act.readAll
    let changed :=
      if call.has 'd' then cs.filter fun c => !old.contains c
      else if translates then cs.map image
      else cs
    let out :=
      if call.has 's' then squeeze (if new?.isSome then new.contains else old.contains) changed
      else changed
    Act.write out

end Tool

end Punctual.Shell
