import Punctual.Text.Search

/-!
# Words, options and commands

A command line is a list of words. A word that starts with two hyphens, or with one and a letter,
names an option; other words are values of the option before them, or name a command. An option
takes no value (a switch), a fixed number of values, or all values up to the next option. Values
can be attached to the option's name.

`Scan.words` works through the words one by one. The values of an option are collected until it is
known that they are complete, and judged only then.
-/

namespace Punctual.CommandLine

/-- Why a command line is not carried out. Asking for help is one of the reasons. -/
inductive UsageError
  | helpWanted
  | versionWanted
  /-- There is no argument at all. -/
  | nothingGiven
  /-- There are options, but no command. -/
  | missingCommand
  | invalidCommand
  | unknownArgument
  /-- An option that is required is not given. -/
  | missingRequired
  /-- An option takes another number of values. -/
  | wrongNumberOfValues
  /-- An option has no value, or an empty path. -/
  | invalidValue
  /-- A value is none of those an option knows. -/
  | unknownValue
  /-- A switch has a value. -/
  | unneededValue
  /-- An option that counts once is given twice. -/
  | repeated
  deriving DecidableEq, Repr

/-- How many values an option takes at a time. -/
inductive Arity
  | none
  | exactly (n : Nat)
  | atLeastOne
  deriving DecidableEq, Repr

/-- What the values of an option are. -/
inductive ValueKind
  | text
  | path
  /-- One of some words. -/
  | word (known : List String)
  deriving DecidableEq, Repr

/-- An option: its long name, its letter if it has one, and what it takes. -/
structure OptionSpec where
  name : String
  letter : Option Char
  arity : Arity
  kind : ValueKind
  /-- The option can be given again and again. -/
  repeats : Bool
  required : Bool
  /-- The values may start with hyphens. -/
  takesAll : Bool
  deriving DecidableEq, Repr

namespace OptionSpec

def switch (name : String) (letter : Option Char) : OptionSpec :=
  ⟨name, letter, .none, .text, false, false, false⟩

def single (name : String) (letter : Option Char) (kind : ValueKind) : OptionSpec :=
  ⟨name, letter, .exactly 1, kind, false, false, false⟩

/-- An option that can be repeated, with all values that follow. -/
def several (name : String) (letter : Option Char) (kind : ValueKind) : OptionSpec :=
  ⟨name, letter, .atLeastOne, kind, true, false, false⟩

/-- The same option, which now has to be given. -/
def needed (o : OptionSpec) : OptionSpec :=
  { o with required := true }

/-- The option can take one more value after `n`. -/
def takesMore (o : OptionSpec) (n : Nat) : Bool :=
  match o.arity with
  | .none => false
  | .exactly k => n < k
  | .atLeastOne => true

/-- The values are as many as the option takes. -/
def judgeNumber (o : OptionSpec) (n : Nat) : Except UsageError Unit :=
  match o.arity with
  | .none => .ok ()
  | .exactly k =>
    if n = 0 then .error .invalidValue
    else if n = k then .ok () else .error .wrongNumberOfValues
  | .atLeastOne => if n = 0 then .error .invalidValue else .ok ()

def judgeValue (o : OptionSpec) (value : String) : Except UsageError Unit :=
  match o.kind with
  | .text => .ok ()
  | .path => if value = "" then .error .invalidValue else .ok ()
  | .word known => if value ∈ known then .ok () else .error .unknownValue

end OptionSpec

/-- What can be said at one place of a command line. -/
structure Grammar where
  options : List OptionSpec
  /-- The words that name commands. -/
  commands : List String
  /-- The long options that stand for commands. -/
  commandOptions : List (String × String)
  /-- The version can be asked for. -/
  hasVersion : Bool

/-- Options as they were given, with their values. -/
abbrev Given := List (String × List String)

/-- How far a command line has been worked through. -/
structure Scan where
  given : Given
  /-- The last option, whose values may not be complete. -/
  pending : Option (OptionSpec × List String)
  /-- The next word is a value of the pending option. -/
  collects : Bool
  deriving DecidableEq, Repr

/-- What the next word leads to. -/
inductive Progress
  | going (s : Scan)
  /-- Two hyphens alone: no option can follow. -/
  | optionsEnd (s : Scan)
  | command (name : String) (s : Scan)
  deriving DecidableEq, Repr

namespace Scan

def start : Scan :=
  ⟨[], none, false⟩

def accept (s : Scan) (o : OptionSpec) (values : List String) : Except UsageError Scan := do
  o.judgeNumber values.length
  if !o.repeats && s.given.any (·.1 = o.name) then throw .repeated
  values.forM o.judgeValue
  return ⟨s.given ++ [(o.name, values)], none, false⟩

def settle (s : Scan) : Except UsageError Scan :=
  match s.pending with
  | none => .ok { s with collects := false }
  | some (o, values) => s.accept o values

/-- Takes the pending option and then another one, with all its values. -/
def acceptNext (s : Scan) (o : OptionSpec) (values : List String) : Except UsageError Scan := do
  (← s.settle).accept o values

/-- An option without attached value: a switch is taken at once, other options wait for values. -/
def begin (s : Scan) (o : OptionSpec) : Except UsageError Scan := do
  let s ← s.settle
  if o.arity = .none then s.accept o []
  else return { s with pending := some (o, []), collects := true }

/-- Asking for help or for the version, after all options before it were taken. -/
def ask (s : Scan) (e : UsageError) : Except UsageError Progress := do
  let _ ← s.settle
  throw e

def long (g : Grammar) (name : String) (value : Option String) (s : Scan) :
    Except UsageError Progress :=
  match g.options.find? (·.name = name) with
  | some o =>
    match value with
    | none => (s.begin o).map .going
    | some v =>
      if o.arity = .none then .error .unneededValue else (s.acceptNext o [v]).map .going
  | none =>
    let asked (e : UsageError) := if value.isSome then .error .unneededValue else s.ask e
    if name = "help" then asked .helpWanted
    else if name = "version" ∧ g.hasVersion then asked .versionWanted
    else
      match g.commandOptions.find? (·.1 = name) with
      | some (_, command) => .ok (.command command s)
      | none => .error .unknownArgument

/-- Options by their letters, several behind one hyphen; what follows the letter of an option with
values is its value. -/
def letters (g : Grammar) : List Char → Scan → Except UsageError Progress
  | [], s => .ok (.going s)
  | c :: cs, s =>
    match g.options.find? (·.letter = some c) with
    | some o =>
      if o.arity = .none then do letters g cs (← s.begin o)
      else
        match cs with
        | [] => (s.begin o).map .going
        | '=' :: value => (s.acceptNext o [.ofList value]).map .going
        | value => (s.acceptNext o [.ofList value]).map .going
    | none =>
      if c = 'h' then s.ask .helpWanted
      else if c = 'V' ∧ g.hasVersion then s.ask .versionWanted
      else .error .unknownArgument

/-- A word that is neither an option nor a value of one. -/
def stray (g : Grammar) : UsageError :=
  if g.commands.isEmpty then .unknownArgument else .invalidCommand

def collect (s : Scan) (value : String) : Scan :=
  match s.pending with
  | none => s
  | some (o, values) =>
    let values := values ++ [value]
    { s with pending := some (o, values), collects := o.takesMore values.length }

/-- The pending option takes every word that follows. -/
def takesAll (s : Scan) : Bool :=
  s.collects && s.pending.any (·.1.takesAll)

def word (g : Grammar) (w : String) (s : Scan) : Except UsageError Progress :=
  if s.takesAll then .ok (.going (s.collect w))
  else if !s.collects && w ∈ g.commands then .ok (.command w s)
  else
    match w.toList with
    | ['-', '-'] => .ok (.optionsEnd s)
    | '-' :: '-' :: rest =>
      match Text.cutAt? '=' rest with
      | some (name, value) => s.long g (.ofList name) (some (.ofList value))
      | none => s.long g (.ofList rest) none
    | '-' :: c :: cs => s.letters g (c :: cs)
    | _ => if s.collects then .ok (.going (s.collect w)) else .error (stray g)

/-- The words behind two hyphens alone: none can be given. The name of a command is refused there
like an option that does not exist. -/
def afterEnd (g : Grammar) (s : Scan) : List String → Except UsageError Scan
  | [] => .ok s
  | w :: _ => if w ∈ g.commands then .error .unknownArgument else .error (stray g)

/-- Works through words up to their end or to a command. -/
def words (g : Grammar) : List String → Scan →
    Except UsageError (Scan × Option (String × List String))
  | [], s => .ok (s, none)
  | w :: ws, s =>
    match s.word g w with
    | .error e => .error e
    | .ok (.going s) => words g ws s
    | .ok (.optionsEnd s) => (s.afterEnd g ws).map fun s => (s, none)
    | .ok (.command name s) => .ok (s, some (name, ws))

end Scan

/-- The values of an option, those of all its occurrences in order. -/
def valuesOf (given : Given) (name : String) : List String :=
  given.flatMap fun (n, values) => if n = name then values else []

def valueOf? (given : Given) (name : String) : Option String :=
  (valuesOf given name).head?

def isGiven (given : Given) (name : String) : Bool :=
  given.any (·.1 = name)

/-- Every option that has to be given was given. -/
def judgeRequired (g : Grammar) (given : Given) : Except UsageError Unit :=
  if (g.options.filter (·.required)).all fun o => isGiven given o.name then .ok ()
  else .error .missingRequired

/-- The options that words give, where no command can follow. -/
def readOptions (g : Grammar) (ws : List String) : Except UsageError Given := do
  let (s, _) ← Scan.words g ws .start
  let s ← s.settle
  judgeRequired g s.given
  return s.given

end Punctual.CommandLine
