import Punctual.Shell.Expression

/-!
# Programs that work on records

An input is a list of records, and a record is a list of fields. A program has rules: the action of a
rule is carried out for every record that its pattern selects, or before the first one or behind
the last one. Actions are made of statements, and those of expressions, whose values are texts and
numbers. Tables map texts to values.
-/

namespace Punctual.Shell.Record

/-- An operation on two numbers, or on two texts. -/
inductive Operation
  | plus
  | minus
  | times
  | over
  | modulo
  | power
  /-- Two texts, one behind the other. -/
  | join
  deriving DecidableEq, Repr

/-- How a value is compared with another one. -/
inductive Relation
  | less
  | atMost
  | same
  | different
  | atLeast
  | more
  deriving DecidableEq, Repr

/-- A function that every program knows. -/
inductive Known
  | length
  | substr
  | index
  | split
  /-- Replaces matches: all of them, or the first one. -/
  | replace (all : Bool)
  | match
  | format
  | sin
  | cos
  | atan2
  | exp
  | log
  | sqrt
  | int
  | random
  | seed
  | upper
  | lower
  | run
  | close
  | flush
  deriving DecidableEq, Repr

/-- An expression. -/
inductive Expr
  | number (x : Float)
  | text (cs : Octets)
  /-- The record has a match; as an argument, the expression itself. -/
  | regex (r : Regex)
  | variable (name : String)
  | field (e : Expr)
  | element (table : String) (index : List Expr)
  | contains (index : List Expr) (table : String)
  | assign (target value : Expr)
  | update (op : Operation) (target value : Expr)
  /-- The target is made more or less by one; the value is the one it had `before` or has then. -/
  | step (up before : Bool) (target : Expr)
  | negative (e : Expr)
  | positive (e : Expr)
  | not (e : Expr)
  | apply (op : Operation) (a b : Expr)
  | compare (r : Relation) (a b : Expr)
  | matching (a b : Expr)
  | both (a b : Expr)
  | either (a b : Expr)
  | choice (c a b : Expr)
  | call (name : String) (args : List Expr)
  | known (f : Known) (args : List Expr)
  /-- The next record of the input is taken. -/
  | line (target : Option Expr)
  | lineOf (path : Expr) (target : Option Expr)
  | lineFrom (command : Expr) (target : Option Expr)
  /-- Several expressions in parentheses, of which only some statements make use. -/
  | several (es : List Expr)

/-- How output goes to what an expression names. -/
inductive Way
  | anew
  | append
  | command
  deriving DecidableEq, Repr

/-- A statement. -/
inductive Stmt
  | express (e : Expr)
  | print (args : List Expr) (sink : Option (Way × Expr))
  | format (args : List Expr) (sink : Option (Way × Expr))
  | cond (c : Expr) (yes no : Stmt)
  | loop (c : Expr) (body : Stmt)
  | loopAfter (body : Stmt) (c : Expr)
  | count (start : Stmt) (c : Option Expr) (step body : Stmt)
  | each (name table : String) (body : Stmt)
  | block (ss : List Stmt)
  | next
  | nextFile
  | exit (e : Option Expr)
  | back (e : Option Expr)
  | leave
  | goOn
  | delete (table : String) (index : List Expr)
  | clear (table : String)

/-- When the action of a rule is carried out. -/
inductive Pattern
  | first
  | last
  | always
  | selected (e : Expr)
  /-- From a record to another one; the number tells such patterns apart. -/
  | between (number : Nat) (a b : Expr)

/-- A rule. -/
structure Rule where
  pattern : Pattern
  action : Stmt

/-- A function of a program. -/
structure Function where
  name : String
  params : List String
  /-- The parameters that are tables. -/
  tables : List String
  body : Stmt

/-- A program. -/
structure Program where
  rules : List Rule
  functions : List Function

end Punctual.Shell.Record
