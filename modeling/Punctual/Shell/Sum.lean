import Punctual.Json.Value
import Punctual.Shell.Octets

/-!
# Sums

Integer expressions as scripts compute them, with the operators of the language C on numbers of 64
bits. A name stands for the value of a variable, and a variable without a number counts as zero.
An expression can set variables. What is read but not computed, since the operand before it decides
the result, sets nothing and divides nothing.
-/

namespace Punctual.Shell.Sum

abbrev Values := String → Option Octets

def wrap (n : Int) : Int :=
  n.bmod (Nat.pow 2 64)

def ofBool (b : Bool) : Int :=
  if b then 1 else 0

/-- Binary operators, the longer ones first, with their ranks. -/
def operators : List (String × Nat) :=
  [("||", 1), ("&&", 2), ("==", 6), ("!=", 6), ("<=", 7), (">=", 7), ("<<", 8), (">>", 8),
    ("|", 3), ("^", 4), ("&", 5), ("<", 7), (">", 7), ("+", 9), ("-", 9), ("*", 10), ("/", 10),
    ("%", 10)]

/-- Why an expression has no value. -/
inductive Flaw
  | divisionByZero
  /-- A number, a name or a parenthesis is missing. -/
  | missingOperand
  /-- A closing parenthesis is missing. -/
  | missingClosing
  /-- A colon is missing. -/
  | missingColon
  /-- Something stands behind the expression. -/
  | trailing
  deriving DecidableEq, Repr

def Flaw.message : Flaw → String
  | .divisionByZero => "division by zero"
  | .missingOperand => "expecting primary"
  | .missingClosing => "expecting ')'"
  | .missingColon => "expecting ':'"
  | .trailing => "expecting EOF"

abbrev Eval := StateT (List (String × Int)) (Except Flaw)

/-- The result of a binary operator on numbers; what is not computed divides nothing. -/
def apply (live : Bool) (operator : String) (a b : Int) : Except Flaw Int :=
  match operator with
  | "||" => .ok (ofBool (a != 0 || b != 0))
  | "&&" => .ok (ofBool (a != 0 && b != 0))
  | "==" => .ok (ofBool (a == b))
  | "!=" => .ok (ofBool (a != b))
  | "<=" => .ok (ofBool (a ≤ b))
  | ">=" => .ok (ofBool (b ≤ a))
  | "<" => .ok (ofBool (a < b))
  | ">" => .ok (ofBool (b < a))
  | "<<" => .ok (wrap (a * (Nat.pow 2 (b % 64).toNat : Nat)))
  | ">>" => .ok (a / (Nat.pow 2 (b % 64).toNat : Nat))
  | "|" => .ok ((BitVec.ofInt 64 a ||| BitVec.ofInt 64 b).toInt)
  | "^" => .ok ((BitVec.ofInt 64 a ^^^ BitVec.ofInt 64 b).toInt)
  | "&" => .ok ((BitVec.ofInt 64 a &&& BitVec.ofInt 64 b).toInt)
  | "+" => .ok (wrap (a + b))
  | "-" => .ok (wrap (a - b))
  | "*" => .ok (wrap (a * b))
  | "/" => if b ≠ 0 then .ok (wrap (a.tdiv b)) else if live then .error .divisionByZero else .ok 0
  | "%" => if b ≠ 0 then .ok (a.tmod b) else if live then .error .divisionByZero else .ok 0
  | _ => .error .trailing

/-- The second operand of an operator is computed after the first one. -/
def computesSecond (operator : String) (a : Int) : Bool :=
  match operator with
  | "||" => a = 0
  | "&&" => a ≠ 0
  | _ => true

def skip (cs : Octets) : Octets :=
  cs.dropWhile isLayout

/-- The binary operator at the front, its rank, and the octets behind it. -/
def operator? (cs : Octets) : Option (String × Nat × Octets) :=
  operators.findSome? fun (op, rank) =>
    if op.toList.isPrefixOf cs then some (op, rank, cs.drop op.toList.length) else none

/-- The operators that can stand in front of the equality sign of a setting. -/
def settingOperators : List String :=
  ["", "<<", ">>", "|", "^", "&", "+", "-", "*", "/", "%"]

/-- The operator of a setting, and the octets behind its equality sign. -/
def setting? (cs : Octets) : Option (String × Octets) :=
  settingOperators.findSome? fun op =>
    match if op.toList.isPrefixOf cs then cs.drop op.toList.length else [] with
    | '=' :: '=' :: _ => none
    | '=' :: rest => some (op, rest)
    | _ => none

/-- The value of a digit of a base up to sixteen. -/
def digit? (base : Nat) (c : Char) : Option Nat :=
  let n :=
    if c.isDigit then c.toNat - 0x30
    else if c.isLower then c.toNat - 0x57
    else c.toNat - 0x37
  if c.isAlphanum && n < base then some n else none

def inBase? (base : Nat) (ds : Octets) : Option Nat :=
  ds.foldlM (fun n d => (digit? base d).map (n * base + ·)) 0

/-- A number: hexadecimal behind `0x`, octal behind `0`, and decimal else. -/
def number? : Octets → Option Nat
  | '0' :: 'x' :: ds | '0' :: 'X' :: ds => inBase? 16 ds
  | '0' :: ds => inBase? 8 ds
  | ds => inBase? 10 ds

def signed? : Octets → Option Int
  | '-' :: ds => (number? ds).map fun n => -(n : Int)
  | '+' :: ds | ds => (number? ds).map Int.ofNat

/-- The value of a variable: the one that was set last, or the one from outside. -/
def value (values : Values) (name : String) : Eval Int := do
  match find? name (← get) with
  | some n => return n
  | none =>
    let cs := (values name).getD []
    return (signed? (Text.dropEndWhile isLayout (cs.dropWhile isLayout))).getD 0

def isWordChar (c : Char) : Bool :=
  c.isAlphanum || c == '_'

mutual

/-- A number, a name, a setting, or an expression in parentheses, with signs in front. -/
def operand (values : Values) (live : Bool) : Nat → Octets → Eval (Int × Octets)
  | 0, _ => throw .missingOperand
  | fuel + 1, cs =>
    match skip cs with
    | '(' :: rest => do
      let (n, rest) ← expression values live fuel rest
      match skip rest with
      | ')' :: rest => return (n, rest)
      | _ => throw .missingClosing
    | '-' :: rest => do
      let (n, rest) ← operand values live fuel rest
      return (wrap (-n), rest)
    | '+' :: rest => operand values live fuel rest
    | '!' :: rest => do
      let (n, rest) ← operand values live fuel rest
      return (ofBool (n == 0), rest)
    | '~' :: rest => do
      let (n, rest) ← operand values live fuel rest
      return (-n - 1, rest)
    | cs => do
      let run := cs.takeWhile isWordChar
      let rest := cs.dropWhile isWordChar
      match run with
      | [] => throw .missingOperand
      | c :: _ =>
        if c.isDigit then
          match number? run with
          | some n => return (wrap n, rest)
          | none => throw .trailing
        else
          let name := String.ofList run
          match setting? (skip rest) with
          | none => return (← value values name, rest)
          | some (op, rest) =>
            let (m, rest) ← expression values live fuel rest
            let n ← if op = "" then pure m else do
              let old ← value values name
              apply live op old m
            if live then modify (upsert name n)
            return (n, rest)

/-- An expression whose binary operators all have a rank above `rank`. -/
def sum (values : Values) (live : Bool) (rank : Nat) : Nat → Octets → Eval (Int × Octets)
  | 0, _ => throw .missingOperand
  | fuel + 1, cs => do
    let (n, rest) ← operand values live fuel cs
    continued values live rank n fuel rest

/-- An expression that continues behind its first operand. -/
def continued (values : Values) (live : Bool) (rank : Nat) (n : Int) :
    Nat → Octets → Eval (Int × Octets)
  | 0, _ => throw .missingOperand
  | fuel + 1, cs => do
    match operator? (skip cs) with
    | none => return (n, cs)
    | some (op, r, rest) =>
      if r ≤ rank then return (n, cs)
      else
        let second := live && computesSecond op n
        let (m, rest) ← sum values second r fuel rest
        continued values live rank (← apply second op n m) fuel rest

/-- An expression that may choose between two others by the value of the first. -/
def expression (values : Values) (live : Bool) : Nat → Octets → Eval (Int × Octets)
  | 0, _ => throw .missingOperand
  | fuel + 1, cs => do
    let (n, rest) ← sum values live 0 fuel cs
    match skip rest with
    | '?' :: rest =>
      let (yes, rest) ← expression values (live && n != 0) fuel rest
      match skip rest with
      | ':' :: rest =>
        let (no, rest) ← expression values (live && n == 0) fuel rest
        return (if n ≠ 0 then yes else no, rest)
      | _ => throw .missingColon
    | _ => return (n, rest)

end

/-- The number that an expression denotes, and the variables that it sets; nothing denotes zero. -/
def evaluate (values : Values) (cs : Octets) : Except Flaw (Int × List (String × Int)) :=
  if (skip cs).isEmpty then .ok (0, [])
  else
    match (expression values true (4 * cs.length + 4) cs).run [] with
    | .error e => .error e
    | .ok ((n, rest), settings) =>
      if (skip rest).isEmpty then .ok (n, settings) else .error .trailing

end Punctual.Shell.Sum
