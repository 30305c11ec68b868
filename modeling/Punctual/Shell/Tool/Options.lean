import Punctual.Shell.Tool.Input

/-!
# Options of tools

The arguments of a tool are options and operands, which may stand between one another. Behind a
hyphen stand letters of options; behind two hyphens stands the long name of one option, of which
as much has to be written as tells it from the others. Two hyphens alone end the options.
-/

namespace Punctual.Shell

namespace Tool

/-- The options that a tool knows. -/
structure Options where
  /-- The letters without a value. -/
  flags : String
  /-- The letters with a value: the rest of the argument, or the next argument. -/
  valued : String := ""
  /-- The letters with a value that is the rest of the argument. -/
  attached : String := ""
  /-- Long names, with the letters that they stand for. -/
  names : List (String × Char) := []
  /-- The first operand ends the options. -/
  stopsAtOperand : Bool := false

/-- The options and operands that a tool is called with. -/
structure Call where
  options : List (Char × Octets)
  operands : List Octets

/-- Why arguments are no call of a tool. -/
inductive Misuse
  | unknownLetter (letter : Char)
  | unknownName (name : Octets)
  | ambiguous (name : Octets) (candidates : List String)
  | missingValue (letter : Char)
  | missingNamedValue (name : String)
  | uselessValue (name : String)

namespace Misuse

def message : Misuse → String
  | unknownLetter c => "invalid option -- '" ++ Octets.toText [c] ++ "'"
  | unknownName name => "unrecognized option '--" ++ Octets.toText name ++ "'"
  | ambiguous name candidates =>
    "option '--" ++ Octets.toText name ++ "' is ambiguous; possibilities:" ++
      String.join (candidates.map fun n => " '--" ++ n ++ "'")
  | missingValue c => "option requires an argument -- '" ++ Octets.toText [c] ++ "'"
  | missingNamedValue name => "option '--" ++ name ++ "' requires an argument"
  | uselessValue name => "option '--" ++ name ++ "' doesn't allow an argument"

end Misuse

namespace Call

def empty : Call :=
  ⟨[], []⟩

def following (given : List (Char × Octets)) (call : Call) : Call :=
  { call with options := given ++ call.options }

def has (call : Call) (letter : Char) : Bool :=
  call.options.any fun (c, _) => c == letter

def values (call : Call) (letter : Char) : List Octets :=
  call.options.filterMap fun (c, v) => if c = letter then some v else none

def value? (call : Call) (letter : Char) : Option Octets :=
  (call.values letter).getLast?

def lastOf? (call : Call) (letters : List Char) : Option Char :=
  ((call.options.filter fun (c, _) => c ∈ letters).getLast?).map Prod.fst

end Call

namespace Options

/-- The options in the letters of an argument, and the letter whose value is the next argument. -/
def ofLetters (o : Options) : Octets → Except Misuse (List (Char × Octets) × Option Char)
  | [] => .ok ([], none)
  | c :: cs =>
    if o.flags.toList.contains c then do
      let (given, waiting?) ← o.ofLetters cs
      return ((c, []) :: given, waiting?)
    else if o.attached.toList.contains c then .ok ([(c, cs)], none)
    else if o.valued.toList.contains c then
      if cs.isEmpty then .ok ([], some c) else .ok ([(c, cs)], none)
    else .error (.unknownLetter c)

/-- The option of a long name that may be shortened. -/
def named (o : Options) (name : Octets) : Except Misuse (String × Char) :=
  let candidates := o.names.filter fun (n, _) => name.isPrefixOf n.toList
  match candidates.find? fun (n, _) => n.toList == name with
  | some found => .ok found
  | none =>
    match candidates with
    | [] => .error (.unknownName name)
    | found :: others =>
      if others.all fun (_, c) => c == found.2 then .ok found
      else .error (.ambiguous name (candidates.map Prod.fst))

def read (o : Options) : List Octets → Except Misuse Call
  | [] => .ok .empty
  | ['-', '-'] :: args => .ok ⟨[], args⟩
  | ('-' :: '-' :: cs) :: args => do
    let (written, value?) := match Text.cutAt? '=' cs with
      | some (n, v) => (n, some v)
      | none => (cs, none)
    let (name, c) ← (o.named written).mapError fun
      | .unknownName _ => .unknownName cs
      | e => e
    match value?, args with
    | some v, args =>
      if o.flags.toList.contains c then .error (.uselessValue name)
      else return (← o.read args).following [(c, v)]
    | none, args =>
      if !o.valued.toList.contains c then return (← o.read args).following [(c, [])]
      else
        match args with
        | [] => .error (.missingNamedValue name)
        | v :: args => return (← o.read args).following [(c, v)]
  | ('-' :: c :: cs) :: args => do
    let (given, waiting?) ← o.ofLetters (c :: cs)
    match waiting?, args with
    | none, args => return (← o.read args).following given
    | some c, [] => .error (.missingValue c)
    | some c, v :: args => return (← o.read args).following (given ++ [(c, v)])
  | arg :: args =>
    if o.stopsAtOperand then .ok ⟨[], arg :: args⟩
    else do
      let call ← o.read args
      return { call with operands := arg :: call.operands }

end Options

/-- Says why a tool does nothing, and where its use is described. -/
def decline (tool : String) (report : String) (status : Nat := 1) : Act Nat := do
  Act.complain (tool ++ ": " ++ report)
  Act.complain ("Try '" ++ tool ++ " --help' for more information.")
  return status

def refuse (tool : String) (report : String) (status : Nat := 1) : Act Nat := do
  Act.complain (tool ++ ": " ++ report)
  return status

/-- A tool that works on a call; arguments that are no call end it with a status. -/
def withOptions (tool : String) (options : Options) (act : Call → Act Nat) (status : Nat := 1) :
    Tool := fun args => do
  match options.read args with
  | .ok call => act call
  | .error e => decline tool e.message status

def shown (cs : Octets) : String :=
  "'" ++ Octets.toText cs ++ "'"

end Tool

end Punctual.Shell
