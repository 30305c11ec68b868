import Punctual.Shell.Octets

/-!
# Scripts

A script is a program for the command interpreter. Its smallest parts are words, which are
expanded when a command runs: parameters, the output of commands and sums are filled in, what was
not quoted is cut at blanks, and patterns become the names of files.
-/

namespace Punctual.Shell

/-- What is done with the value of a parameter. -/
inductive Transform
  | none
  /-- The number of its octets. -/
  | length
  /-- A word in its place if it is not set, or, if `orEmpty`, if it is empty. -/
  | default (orEmpty : Bool)
  /-- The same, and the parameter is set. -/
  | assign (orEmpty : Bool)
  /-- A word in its place if it is set. -/
  | alternative (orEmpty : Bool)
  /-- The run ends with a word as report if it is not set, or, if `orEmpty`, if it is empty. -/
  | required (orEmpty : Bool)
  /-- The shortest or longest start that a pattern describes is dropped. -/
  | dropStart (longest : Bool)
  /-- The shortest or longest end that a pattern describes is dropped. -/
  | dropEnd (longest : Bool)
  deriving DecidableEq, Repr

/-- How a channel is changed for a command. -/
inductive RedirectKind
  | input
  | output
  /-- Like `output`, over a file that is there. -/
  | overwrite
  | append
  /-- The channel becomes the same as another one. -/
  | same
  /-- The channel gives the text of the word. -/
  | text
  deriving DecidableEq, Repr

mutual

/-- A part of a word. -/
inductive Part
  | plain (text : Octets)
  | quoted (text : Octets)
  | parameter (isQuoted : Bool) (name : String) (t : Transform) (word : List Part)
  /-- The output of commands; `lines` is the number of their line feeds if their lines count anew. -/
  | output (isQuoted : Bool) (lines : Option Nat) (s : Script)
  | sum (isQuoted : Bool) (expression : List Part)

/-- A change of a channel. -/
inductive Redirect
  | to (channel : Nat) (kind : RedirectKind) (target : List Part)

/-- A script. -/
inductive Script
  | nothing
  /-- Variables are set, and a program is run; `left` line feeds lie behind the start of the command. -/
  | simple (left : Nat) (settings : List (String × List Part)) (words : List (List Part))
      (redirects : List Redirect)
  /-- A script with changed channels. -/
  | redirected (s : Script) (redirects : List Redirect)
  | pipe (left right : Script)
  | negated (s : Script)
  | andThen (left right : Script)
  | orElse (left right : Script)
  | next (first second : Script)
  | background (s : Script)
  | ifThen (condition yes no : Script)
  /-- The body runs as long as the condition succeeds, or, if `untilTrue`, fails. -/
  | loop (untilTrue : Bool) (condition body : Script)
  /-- The body runs for every word, or for every argument if no words are given. -/
  | forEach (name : String) (overArguments : Bool) (words : List (List Part)) (body : Script)
  | choose (word : List Part) (cases : List (List (List Part) × Script))
  | subshell (s : Script)
  | define (name : String) (left : Nat) (body : Script)

end

abbrev Word := List Part

end Punctual.Shell
