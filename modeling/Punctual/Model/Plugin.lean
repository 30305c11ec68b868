import Punctual.Log
import Punctual.Model.Merged
import Punctual.Specification.Counts

/-!
# Plugins

A plugin rewrites a merged model before it is written. One drops the specifications that are not
about task counters, the other drops constraints that are there already. Options of the form
`key=value` are offered to every selected plugin.
-/

namespace Punctual

/-- The plugins there are. -/
inductive PluginKind
  | dropSpecs
  | dedupConstraints
  deriving DecidableEq, Repr

namespace PluginKind

/-- The name of a plugin. -/
def name : PluginKind → String
  | .dropSpecs => "DropSpecs"
  | .dedupConstraints => "DedupConstraints"

/-- The plugin of a name. -/
def ofName (name : String) : Except CombineError PluginKind :=
  match name with
  | "DropSpecs" => .ok .dropSpecs
  | "DedupConstraints" => .ok .dedupConstraints
  | _ => .error (.unknownPlugin name)

theorem ofName_name (k : PluginKind) : ofName k.name = .ok k := by
  cases k <;> rfl

end PluginKind

/-- A plugin with its options. -/
inductive Plugin
  /-- Drops specifications, but keeps those with one of the patterns. -/
  | dropSpecs (keep : List String)
  | dedupConstraints
  deriving DecidableEq, Repr

namespace Plugin

/-- A plugin without options. -/
def ofKind : PluginKind → Plugin
  | .dropSpecs => .dropSpecs []
  | .dedupConstraints => .dedupConstraints

/-- The kind of a plugin. -/
def kind : Plugin → PluginKind
  | .dropSpecs _ => .dropSpecs
  | .dedupConstraints => .dedupConstraints

/-- Offers an option; the plugin with the option set if it knows the key. -/
def configure (p : Plugin) (key value : String) : Except CombineError (Option Plugin) :=
  match p with
  | .dropSpecs keep =>
    if key ≠ "keep" then .ok none
    else if value = "" then .error (.invalidOption p.kind.name (key ++ "=" ++ value))
    else .ok (some (.dropSpecs (keep ++ [value])))
  | .dedupConstraints => .ok none

/-- A line names a task counter or one of the patterns. -/
def isKeptLine (keep : List String) (line : String) : Bool :=
  Text.contains line (counterPrefix ++ "_") || keep.any (Text.contains line)

/-- A section stays when specifications are dropped. -/
def isKept (keep : List String) (s : Section) : Bool :=
  s.kind ≠ .spec || s.body.any (isKeptLine keep)

/-- The constraint that a section states, up to blanks. -/
def constraint? (s : Section) : Option (SectionKind × List String) :=
  if s.kind.isConstraint then some (s.kind, trimmedLines s.body) else none

/-- The sections without constraints that are among `seen` or stand further in front. -/
def dedup (seen : List (SectionKind × List String)) : List Section → List Section
  | [] => []
  | s :: ss =>
    match constraint? s with
    | none => s :: dedup seen ss
    | some c => if c ∈ seen then dedup seen ss else s :: dedup (c :: seen) ss

/-- The sections that a plugin leaves. -/
def rewrite (p : Plugin) (sections : List Section) : List Section :=
  match p with
  | .dropSpecs keep => sections.filter (isKept keep)
  | .dedupConstraints => dedup [] sections

/-- What a plugin reports about its work. -/
def reports (p : Plugin) (before after : List Section) : Log :=
  match p with
  | .dropSpecs _ =>
    [⟨.info, "DropSpecs removed " ++ toString (before.length - after.length) ++
      " specification(s)"⟩]
  | .dedupConstraints => []

/-- Applies a plugin to a model. -/
def apply (p : Plugin) (m : Model) : Model × Log :=
  let sections := p.rewrite m.sections
  ({ m with sections := sections }, p.reports m.sections sections)

/-- The key and the value of an option. -/
def parseOption (option : String) : Except CombineError (String × String) :=
  match Text.splitOnce? option '=' with
  | some (key, value) =>
    if Text.trim key ≠ "" then .ok (Text.trim key, Text.trim value)
    else .error (.invalidOption "*" option)
  | none => .error (.invalidOption "*" option)

/-- Offers an option to plugins one after another, and tells whether one of them took it. -/
def offer (key value : String) : List Plugin → Except CombineError (List Plugin × Bool)
  | [] => .ok ([], false)
  | p :: ps => do
    let taken ← p.configure key value
    let (ps, others) ← offer key value ps
    return (taken.getD p :: ps, taken.isSome || others)

/-- Sets options one after another; each has to be taken by a plugin. -/
def setOptions (ps : List Plugin) : List String → Except CombineError (List Plugin)
  | [] => .ok ps
  | option :: options => do
    let (key, value) ← parseOption option
    let (ps, taken) ← offer key value ps
    if taken then setOptions ps options else .error (.unknownOption option)

/-- The plugins of some names, with options. -/
def select (names options : List String) : Except CombineError (List Plugin) := do
  let kinds ← names.mapM PluginKind.ofName
  setOptions (kinds.map ofKind) options

end Plugin

end Punctual
