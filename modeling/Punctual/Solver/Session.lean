import Punctual.Solver.Error
import Punctual.Solver.Output
import Punctual.Text.Utf8

/-!
# Interactive sessions

In an interactive session every command is followed by a request to print a marker, which is
different for every command. All lines up to the first one that contains the marker are the
answer. What is printed behind it is kept for the next command.

The program at the other end is any `Peer`: it hears text and prints bytes.
-/

namespace Punctual

/-- A line as it was printed, its line feed included. -/
abbrev RawLine := List UInt8

/-- A program that hears what is written to it. A program that no longer listens gives nothing. -/
structure Peer (τ : Type) where
  hear : String → τ → Option (List UInt8 × τ)

/-- Cuts bytes behind every line feed; the last line may have none. -/
def cutLines : List UInt8 → List RawLine
  | [] => []
  | b :: bs =>
    if b = 10 then [b] :: cutLines bs
    else match cutLines bs with
      | [] => [[b]]
      | l :: ls => (b :: l) :: ls

namespace Session

/-- The first letters of every marker. -/
def markerStem : String := "__deadline_answer_"

/-- The marker behind the answer to the `n`-th command. -/
def marker (n : Nat) : String :=
  markerStem ++ toString n ++ "__"

/-- The characters without the prompts in front of them. -/
def dropPrompts (prompt : List Char) (cs : List Char) : List Char :=
  match prompt with
  | [] => cs
  | p :: ps =>
    match h : Text.dropStart? (p :: ps) cs with
    | none => cs
    | some rest =>
      have : rest.length < cs.length := by
        rw [Text.dropStart?_eq_some_iff] at h
        rw [h, List.length_append, List.length_cons]
        omega
      dropPrompts (p :: ps) rest
termination_by cs.length

/-- A printed line without prompts in front and blanks behind. -/
def answerLine (prompt line : String) : String :=
  Text.trimEnd (.ofList (dropPrompts prompt.toList line.toList))

/-- The lines up to the first one with the marker, and the lines behind it. A line that is no
UTF-8 fails and is used up, and so are all lines if none has the marker. -/
def takeAnswer (prompt mark : String) : List RawLine →
    Except SolverError (List String) × List RawLine
  | [] => (.error .channelClosed, [])
  | raw :: rest =>
    match Text.decode? ⟨raw.toArray⟩ with
    | none => (.error (.io .invalidUtf8), rest)
    | some line =>
      let line := answerLine prompt line
      if Text.contains line mark then (.ok [], rest)
      else
        let (answer, left) := takeAnswer prompt mark rest
        (answer.map (line :: ·), left)

/-- What an answer to a reachability query says: the path behind the first line that reports a
refuted property, or that no path exists. -/
def classify (answer : List String) : Except SolverError (Option String) :=
  match answer.dropWhile fun line => !Text.contains line Output.refutedWords with
  | _ :: path => .ok (some (Text.unlines path))
  | [] =>
    if answer.any (Text.contains · Output.provenWords) then .ok none
    else .error (.unexpectedOutput (Text.unlines answer))

/-- The command that asks whether a target can be reached. -/
def pathCommand (target : String) : String :=
  "check_ctlspec -p \"AG !(" ++ target ++ ")\""

end Session

/-- A session: the program, how many commands it was sent, and what it has printed since the last
answer was read. -/
structure Session (τ : Type) where
  prompt : String
  sent : Nat
  unread : List UInt8
  peer : τ

namespace Session

variable {τ : Type}

/-- A session with a program that was just started. -/
def start (prompt : String) (peer : τ) : Session τ :=
  ⟨prompt, 0, [], peer⟩

/-- Writes text to the program and keeps what it prints. -/
def write (p : Peer τ) (text : String) (s : Session τ) : Option (Session τ) :=
  (p.hear text s.peer).map fun (printed, peer) =>
    { s with unread := s.unread ++ printed, peer := peer }

/-- Sends a command and reads its answer. -/
def execute (p : Peer τ) (command : String) : EStateM SolverError (Session τ) (List String) :=
  fun s =>
    let n := s.sent + 1
    let s := { s with sent := n }
    match s.write p (command ++ "\n" ++ "echo " ++ marker n ++ "\n") with
    | none => .error .channelClosed s
    | some s =>
      match takeAnswer s.prompt (marker n) (cutLines s.unread) with
      | (.error e, rest) => .error e { s with unread := rest.flatten }
      | (.ok answer, rest) => .ok answer { s with unread := rest.flatten }

/-- Builds the model, which every session begins with. -/
def buildModel (p : Peer τ) : EStateM SolverError (Session τ) Unit := do
  let _ ← execute p "go"

/-- Asks for a path into a target. -/
def getPath (p : Peer τ) (target : String) :
    EStateM SolverError (Session τ) (Option String) := do
  match classify (← execute p (pathCommand target)) with
  | .ok path => return path
  | .error e => throw e

/-- Tells the program to end. -/
def quit (p : Peer τ) (s : Session τ) : Session τ :=
  (s.write p "quit\n").getD s

end Session

end Punctual
