import Punctual.Configuration.Basic
import Punctual.Json.Reader

/-!
# Settings

Settings are data values that are gathered from several sources, a later one over an earlier one,
before a configuration is made of them. A key names the place of a value by a path. Tables are
merged member by member; any other value replaces what was there.

Sources such as environment variables know texts only, so a configuration is made of settings
leniently: numbers, truth values and texts stand for one another where that makes sense.
-/

namespace Punctual.Settings

open Json (Value)

/-! ## Paths -/

/-- A step of a path: into a member of a table, or to an item of a list. -/
inductive Step
  | member (name : String)
  | item (index : Int)
  deriving DecidableEq, Repr

def isNameChar (c : Char) : Bool :=
  c.isAlphanum || c == '_' || c == '-'

/-- A name at the head of the characters, and the rest. -/
def pathName? (cs : List Char) : Option (String × List Char) :=
  let name := cs.takeWhile isNameChar
  if name.isEmpty then none else some (.ofList name, cs.dropWhile isNameChar)

def isIndexBlank (c : Char) : Bool :=
  c == ' ' || c == '\t'

/-- The index that stands in brackets: digits, perhaps behind a minus sign, with blanks around them.
An index that does not fit 64 bits with a sign is none. -/
def index? (cs : List Char) : Option Int :=
  let n? := match Text.dropEndWhile isIndexBlank (cs.dropWhile isIndexBlank) with
    | '-' :: ds => (Text.nat? ds).map fun n => -(n : Int)
    | ds => (Text.nat? ds).map Int.ofNat
  n?.filter fun n => decide (Time.Fits n)

/-- The steps that follow the first one: names behind points, and indices in brackets. -/
def steps? : Nat → List Char → Option (List Step)
  | _, [] => some []
  | 0, _ => none
  | fuel + 1, '.' :: cs => do
    let (name, rest) ← pathName? cs
    return Step.member name :: (← steps? fuel rest)
  | fuel + 1, '[' :: cs => do
    let (inner, rest) ← Text.cutAt? ']' cs
    return Step.item (← index? inner) :: (← steps? fuel rest)
  | _, _ => none

/-- The path of a key; a key that is no path is a name as a whole. -/
def pathOfKey (key : String) : List Step :=
  let path? := do
    let (name, rest) ← pathName? key.toList
    let steps ← steps? rest.length rest
    return Step.member name :: steps
  path?.getD [.member key]

/-! ## Merging -/

/-- The members of a table; any other value has none. -/
def membersOf : Value → List (String × Value)
  | .object ms => ms
  | _ => []

/-- The items of a list; any other value has none. -/
def itemsOf : Value → List Value
  | .list vs => vs
  | _ => []

/-- The list with its items made enough to have an item `index`, and the place of that item.
Negative indices count from the end. -/
def padded (vs : List Value) (index : Int) : List Value × Nat :=
  if 0 ≤ index then
    (vs ++ List.replicate (index.toNat + 1 - vs.length) .null, index.toNat)
  else if (-index).toNat ≤ vs.length then (vs, vs.length - (-index).toNat)
  else (List.replicate ((-index).toNat - vs.length) .null ++ vs, 0)

/-- Changes the value at the end of a path; tables and lists on the way are made as needed. -/
def modifyAt (f : Value → Value) : List Step → Value → Value
  | [], v => f v
  | .member name :: path, v =>
    let ms := membersOf v
    .object (upsert name (modifyAt f path ((find? name ms).getD .null)) ms)
  | .item index :: path, v =>
    let (vs, i) := padded (itemsOf v) index
    .list (vs.modify i (modifyAt f path))

mutual

def overlay : Value → Value → Value
  | .object ms, v => .object (overlayMembers ms (membersOf v))
  | w, _ => w

def overlayMembers : List (String × Value) → List (String × Value) → List (String × Value)
  | [], ms => ms
  | (name, v) :: rest, ms =>
    overlayMembers rest (upsert name (overlay v ((find? name ms).getD .null)) ms)

end

def add (settings : Value) (entries : List (String × Value)) : Value :=
  entries.foldl (fun v (key, w) => modifyAt (overlay w) (pathOfKey key) v) settings

/-! ## Lenient reading -/

def yesWords : List String := ["true", "on", "yes"]

def noWords : List String := ["false", "off", "no"]

/-- The character in lower case. Beside the ASCII letters the Kelvin sign is the only character whose
lower case is an ASCII letter; all others stay as they are. -/
def lower (c : Char) : Char :=
  if c = '\u212A' then 'k' else c.toLower

/-- The text in lower case, as far as ASCII letters come of it. -/
def lowered (s : String) : String :=
  .ofList (s.toList.map lower)

def bool? : Value → Option Bool
  | .bool b => some b
  | .int n => some (n != 0)
  | .float x => some (x != 0)
  | .text s =>
    if lowered s ∈ "1" :: yesWords then some true
    else if lowered s ∈ "0" :: noWords then some false
    else none
  | _ => none

def float? : Value → Option Float
  | .float x => some x
  | .int n => some (Json.Reader.floatOfInt n)
  | .bool b => some (if b then 1 else 0)
  | .text s =>
    if lowered s ∈ yesWords then some 1
    else if lowered s ∈ noWords then some 0
    else Number.float? s.toList
  | _ => none

def maxWord : Nat := 18446744073709551615

/-- The natural number nearest to a floating point number, a half going up. Numbers without one
give the nearest that 64 bits hold, and a value that is no number gives zero. -/
def nearestNat (x : Float) : Nat :=
  match Number.Binary64.ofFloat x with
  | .nan => 0
  | .infinite negative => if negative then 0 else maxWord
  | .finite true _ _ => 0
  | .finite false m q =>
    let (num, den) := Number.fractionOf m q
    min ((2 * num + den) / (2 * den)) maxWord

def natural? : Value → Option Nat
  | .int n => if 0 ≤ n then some n.toNat else none
  | .float x => some (nearestNat x)
  | .bool b => some (if b then 1 else 0)
  | .text s =>
    if lowered s ∈ yesWords then some 1
    else if lowered s ∈ noWords then some 0
    else
      let digits := match s.toList with
        | '+' :: cs => cs
        | cs => cs
      (Text.nat? digits).filter (· ≤ maxWord)
  | _ => none

def count? (v : Value) : Option Nat :=
  (natural? v).filter (· ≤ maxCount)

def text? : Value → Option String
  | .text s => some s
  | .bool b => some (if b then "true" else "false")
  | .int n => some (toString n)
  | .float x => some (Number.writePlain x)
  | _ => none

def texts? : Value → Option (List String)
  | .list vs => vs.mapM text?
  | _ => none

/-- The fields of a record by name: the members of a table, or the items of a list in the order of
the fields. Of a list the first items have to be there. -/
def record? (names : List String) (needed : Nat) : Value → Option (String → Option Value)
  | .object ms => some fun name => find? name ms
  | .list vs =>
    if needed ≤ vs.length then some fun name => find? name (names.zip vs) else none
  | _ => none

def optional? {α : Type} (read : Value → Option α) : Option Value → Option (Option α)
  | none | some .null => some none
  | some v => (read v).map some

def orDefault? {α : Type} (default : α) (read : Value → Option α) : Option Value → Option α
  | none => some default
  | some v => read v

def solver? (v : Value) : Option SolverConfig := do
  let field ← record? ["command", "args", "prompt"] 1 v
  return {
    command := ← (← field "command") |> text?
    args := ← orDefault? [] texts? (field "args")
    prompt := ← orDefault? SolverConfig.defaultPrompt text? (field "prompt") }

/-- The value as bounds of bounded model checking. -/
def bmc? (v : Value) : Option BmcSettings := do
  let field ←
    record? ["base_timeout", "timeout_factor", "bmc_length", "poll_interval_ms"] 4 v
  return {
    baseTimeout := ← optional? float? (field "base_timeout")
    timeoutFactor := ← optional? float? (field "timeout_factor")
    bmcLength := ← optional? count? (field "bmc_length")
    pollMillis := ← optional? natural? (field "poll_interval_ms") }

def combine? (v : Value) : Option CombineOptions := do
  let field ← record? ["plugins", "plugin_options", "variables"] 0 v
  return {
    plugins := ← orDefault? [] texts? (field "plugins")
    pluginOptions := ← orDefault? [] texts? (field "plugin_options")
    declarations := ← orDefault? [] texts? (field "variables") }

def configuration? (v : Value) : Option Configuration := do
  let field ← record? [] 0 v
  return {
    solver := ← optional? solver? (field "solver")
    bmc := ← orDefault? .none bmc? (field "bmc")
    fallback := ← optional? bool? (field "fallback_to_full_mc")
    trustHeuristic := ← optional? bool? (field "trust_bmc_timeout_heuristic")
    combineCommand := ← optional? texts? (field "combine_command")
    combine := ← optional? combine? (field "combine") }

end Punctual.Settings
