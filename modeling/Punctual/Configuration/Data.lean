import Punctual.Configuration.Basic

/-!
# Configurations as data

A configuration is read from a record. The fields of `bmc` and the lists of options may be left
out; a model checker needs a command.
-/

namespace Punctual

open Json (Reader RecordField)

def optionalField {ρ α : Type} (name : String) (r : Reader α) (set : Option α → ρ → ρ) :
    RecordField ρ :=
  ⟨name, r.optional.map set, false⟩

/-- Reads a duration in milliseconds or a bound: a natural number below `2 ^ bits`. -/
def naturalBelow (bits : Nat) : Reader Nat :=
  (Reader.int 0 (Nat.pow 2 bits - 1 : Nat)).map Int.toNat

namespace SolverConfig

/-- A model checker whose fields are being read. -/
structure Draft where
  command : Option String
  args : List String
  prompt : String

def reader : Reader SolverConfig :=
  .record
    [ ⟨"command", Reader.text.map fun s d => { d with command := some s }, false⟩,
      ⟨"args", (Reader.list .text).map fun ss d => { d with args := ss }, true⟩,
      ⟨"prompt", Reader.text.map fun s d => { d with prompt := s }, true⟩ ]
    (Draft.mk none [] defaultPrompt)
    fun d => d.command.map fun command => ⟨command, d.args, d.prompt⟩

end SolverConfig

/-- Reads the bounds of bounded model checking. -/
def BmcSettings.reader : Reader BmcSettings :=
  .record
    [ optionalField "base_timeout" .float fun x s => { s with baseTimeout := x },
      optionalField "timeout_factor" .float fun x s => { s with timeoutFactor := x },
      optionalField "bmc_length" (naturalBelow 32) fun n s => { s with bmcLength := n },
      optionalField "poll_interval_ms" (naturalBelow 64) fun n s => { s with pollMillis := n } ]
    BmcSettings.none some

def CombineOptions.reader : Reader CombineOptions :=
  .record
    [ ⟨"plugins", (Reader.list .text).map fun ss o => { o with plugins := ss }, true⟩,
      ⟨"plugin_options", (Reader.list .text).map fun ss o => { o with pluginOptions := ss }, true⟩,
      ⟨"variables", (Reader.list .text).map fun ss o => { o with declarations := ss }, true⟩ ]
    CombineOptions.none some

namespace Configuration

def reader : Reader Configuration :=
  .record
    [ optionalField "solver" SolverConfig.reader fun s c => { c with solver := s },
      ⟨"bmc", BmcSettings.reader.map fun s c => { c with bmc := s }, true⟩,
      optionalField "fallback_to_full_mc" .bool fun b c => { c with fallback := b },
      optionalField "trust_bmc_timeout_heuristic" .bool fun b c => { c with trustHeuristic := b },
      optionalField "combine_command" (.list .text) fun ss c => { c with combineCommand := ss },
      optionalField "combine" CombineOptions.reader fun o c => { c with combine := o } ]
    empty some

def read (text : String) : Except Json.Flaw Configuration :=
  Json.parse reader text

end Configuration

end Punctual
