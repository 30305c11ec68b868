/-!
# Errors of files and programs

Why a file could not be read or written, or a program could not be started, and how a program
ended, with the texts that report it.
-/

namespace Punctual

/-- Why a file or program could not be used. -/
inductive IoError
  | notFound
  | permissionDenied
  | alreadyExists
  | notDirectory
  | isDirectory
  | nameTooLong
  | invalidUtf8
  /-- A path or argument holds the character that ends texts for the system. -/
  | endMarkInside
  /-- A failure with a text of its own. -/
  | other (text : String)
  deriving DecidableEq, Repr

/-- The text that reports the error. -/
def IoError.message : IoError → String
  | .notFound => "No such file or directory (os error 2)"
  | .permissionDenied => "Permission denied (os error 13)"
  | .alreadyExists => "File exists (os error 17)"
  | .notDirectory => "Not a directory (os error 20)"
  | .isDirectory => "Is a directory (os error 21)"
  | .nameTooLong => "File name too long (os error 36)"
  | .invalidUtf8 => "stream did not contain valid UTF-8"
  | .endMarkInside => "file name contained an unexpected NUL byte"
  | .other text => text

/-- How a program ended. -/
inductive ExitStatus
  | code (n : Nat)
  | signal (n : Nat)
  deriving DecidableEq, Repr

/-- The names of signals, without the letters that all of them start with. -/
def signalNames : List (Nat × String) :=
  [(1, "HUP"), (2, "INT"), (3, "QUIT"), (4, "ILL"), (5, "TRAP"), (6, "ABRT"), (7, "BUS"),
    (8, "FPE"), (9, "KILL"), (10, "USR1"), (11, "SEGV"), (12, "USR2"), (13, "PIPE"), (14, "ALRM"),
    (15, "TERM"), (16, "STKFLT"), (17, "CHLD"), (18, "CONT"), (19, "STOP"), (20, "TSTP"),
    (21, "TTIN"), (22, "TTOU"), (23, "URG"), (24, "XCPU"), (25, "XFSZ"), (26, "VTALRM"),
    (27, "PROF"), (28, "WINCH"), (29, "IO"), (30, "PWR"), (31, "SYS")]

/-- The name of a signal, if it has one. -/
def signalName? (n : Nat) : Option String :=
  ((signalNames.find? fun (k, _) => k = n).map Prod.snd).map fun name => "SIG" ++ name

/-- The text that shows how a program ended. -/
def ExitStatus.text : ExitStatus → String
  | .code n => "exit status: " ++ toString n
  | .signal n =>
    "signal: " ++ toString n ++ ((signalName? n).map fun s => " (" ++ s ++ ")").getD ""

end Punctual
