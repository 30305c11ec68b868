import Punctual.Shell.Expression
import Punctual.Shell.Tool.Options

/-!
# Comparing arguments

Texts, numbers and files are compared, and numbers calculated; the status tells the result.
-/

namespace Punctual.Shell

namespace Tool

/-! ## Tests -/

/-- An operator of a test. -/
inductive TestOperator
  | unary
  | binary
  | both
  | either
  | negation
  | opening
  | closing
  deriving DecidableEq

def testOperator? (word : Octets) : Option TestOperator :=
  match String.ofList word with
  | "-r" | "-w" | "-x" | "-e" | "-f" | "-d" | "-c" | "-b" | "-p" | "-u" | "-g" | "-k" | "-s" | "-t"
  | "-z" | "-n" | "-h" | "-O" | "-G" | "-L" | "-S" => some .unary
  | "=" | "==" | "!=" | "<" | ">" | "-eq" | "-ne" | "-ge" | "-gt" | "-le" | "-lt" | "-nt" | "-ot"
  | "-ef" => some .binary
  | "-a" => some .both
  | "-o" => some .either
  | "!" => some .negation
  | "(" => some .opening
  | ")" => some .closing
  | _ => none

/-- Why words are no test. -/
inductive TestFault
  | notNumber (word : Octets)
  | missingArgument (operator : Octets)
  | unexpected (word : Octets)
  | unclosed
  | missingBracket

/-- The result of a test, or why the words are none. -/
abbrev Tested (α : Type) := Except TestFault α

def unary (m : Machine) (op : Octets) (arg : Octets) : Bool :=
  let tree := m.tree
  let path := m.pathFrom (Octets.toText arg)
  let isThere := tree.leadsSomewhere path
  match String.ofList op with
  | "-n" => !arg.isEmpty
  | "-z" => arg.isEmpty
  | "-f" => tree.isFile path
  | "-d" => tree.isDirectory path
  | "-e" | "-r" | "-w" => isThere || path = Act.nullPath
  | "-O" | "-G" => isThere
  | "-c" => path = Act.nullPath
  | "-x" => tree.isDirectory path || path.startsWith "/bin/" || path.startsWith "/usr/bin/" ||
      (isThere && (tree.locate path).toOption.any m.startable.contains)
  | "-s" => tree.isDirectory path ||
      ((tree.readBytes path).toOption.map fun b => b.size != 0).getD false
  | _ => false

def operandNumber (cs : Octets) : Tested Int :=
  match integer? cs with
  | some n => if -9223372036854775808 ≤ n ∧ n ≤ 9223372036854775807 then .ok n
    else .error (.notNumber cs)
  | none => .error (.notNumber cs)

def binary (m : Machine) (a op b : Octets) : Tested Bool := do
  let compared (r : Int → Int → Bool) : Tested Bool := do
    let x ← operandNumber a
    let y ← operandNumber b
    return r x y
  let place (p : Octets) : Option Place := (m.tree.locate (m.pathFrom (Octets.toText p))).toOption
  let isThere (p : Octets) : Bool := m.tree.leadsSomewhere (m.pathFrom (Octets.toText p))
  match String.ofList op with
  | "=" | "==" => return a == b
  | "!=" => return a != b
  | "<" => return Octets.precedes a b
  | ">" => return Octets.precedes b a
  | "-eq" => compared fun x y => x == y
  | "-ne" => compared fun x y => x != y
  | "-lt" => compared fun x y => x < y
  | "-le" => compared fun x y => x ≤ y
  | "-gt" => compared fun x y => x > y
  | "-ge" => compared fun x y => x ≥ y
  | "-nt" => return isThere a && !isThere b
  | "-ot" => return isThere b && !isThere a
  | _ => return isThere a && isThere b && place a == place b

/-- What the word at the front is: an operator, or an operand. In front of the end, and in front of an
operator with two operands, a word is an operand. -/
def leadingOperator? (words : List Octets) : Option TestOperator :=
  match words with
  | [] => none
  | word :: rest =>
    match testOperator? word, rest with
    | some .unary, [] => none
    | some .unary, [_] => some .unary
    | some .unary, next :: _ :: _ =>
      if testOperator? next = some .binary then none else some .unary
    | some .opening, [] => none
    | op?, _ => op?

mutual

/-- A test behind words for negation: its result, and the words from its last one on. -/
def testOne (m : Machine) : Nat → List Octets → Tested (Bool × List Octets)
  | 0, words => .ok (false, words)
  | fuel + 1, words =>
    match leadingOperator? words, words with
    | _, [] => .ok (false, [])
    | some .negation, [word] => do
      let (r, _) ← testOne m fuel []
      return (!r, [word])
    | some .negation, _ :: rest => do
      let (r, rest) ← testOne m fuel rest
      return (!r, rest)
    | some .opening, _ :: rest =>
      if leadingOperator? rest = some .closing then .ok (false, rest)
      else do
        let (r, rest) ← testAny m fuel rest
        if leadingOperator? rest.tail = some .closing then return (r, rest.tail)
        else .error .unclosed
    | some .unary, op :: rest =>
      match rest with
      | [] => .error (.missingArgument op)
      | arg :: _ => .ok (unary m op arg, rest)
    | _, word :: rest =>
      match leadingOperator? rest, rest with
      | some .binary, op :: b :: more => do return (← binary m word op b, b :: more)
      | some .binary, [op] => .error (.missingArgument op)
      | _, _ => .ok (!word.isEmpty, words)

def testAll (m : Machine) : Nat → List Octets → Tested (Bool × List Octets)
  | 0, words => .ok (false, words)
  | fuel + 1, words => do
    let (r, rest) ← testOne m fuel words
    if leadingOperator? rest.tail = some .both then
      let (s, rest) ← testAll m fuel rest.tail.tail
      return (r && s, rest)
    else return (r, rest)

def testAny (m : Machine) : Nat → List Octets → Tested (Bool × List Octets)
  | 0, words => .ok (false, words)
  | fuel + 1, words => do
    let (r, rest) ← testAll m fuel words
    if leadingOperator? rest.tail = some .either then
      let (s, rest) ← testAny m fuel rest.tail.tail
      return (r || s, rest)
    else return (r, rest)

end

/-- The result of all words; three and four of them are read in a way of their own. -/
def testResult (m : Machine) : Nat → List Octets → Tested Bool
  | 0, _ => .ok false
  | _, [] => .ok false
  | fuel + 1, words =>
    let whole (words : List Octets) : Tested Bool := do
      let (r, rest) ← testAny m (3 * words.length + 6) words
      match rest with
      | word :: _ :: _ => .error (.unexpected word)
      | _ => return r
    let inner : Option (List Octets) :=
      if words.head? = some ['('] ∧ words.getLast? = some [')'] then some words.tail.dropLast
      else none
    match words with
    | [a, op, b] =>
      if testOperator? op = some .binary then binary m a op b
      else if a = ['!'] then (testResult m fuel [op, b]).map (!·)
      else whole (inner.getD words)
    | [a, b, c, d] =>
      if a = ['!'] ∧ inner.isNone then (testResult m fuel [b, c, d]).map (!·)
      else whole (inner.getD words)
    | words => whole words

/-- Tests words, and says in some words why they are no test. -/
def testWith (say : TestFault → Act Unit) (words : List Octets) : Act Nat := do
  let m ← get
  match testResult m (words.length + 1) words with
  | .ok r => return if r then 0 else 1
  | .error fault =>
    say fault
    return 2

/-- Says why words are no test, as the interpreter does. -/
def sayOwn (fault : TestFault) : Act Unit :=
  let text := match fault with
    | .notNumber w => "Illegal number: " ++ Octets.toText w
    | .missingArgument w => Octets.toText w ++ ": argument expected"
    | .unexpected w => Octets.toText w ++ ": unexpected operator"
    | .unclosed => "closing paren expected"
    | .missingBracket => "missing ]"
  Act.fault text

/-- Says why words are no test, as a program does. -/
def sayOutside (name : String) (fault : TestFault) : Act Unit :=
  let text := match fault with
    | .notNumber w => "invalid integer " ++ shown w
    | .missingArgument w => "missing argument after " ++ shown w
    | .unexpected w => "extra argument " ++ shown w
    | .unclosed => "')' expected"
    | .missingBracket => "missing ']'"
  Act.complain (name ++ ": " ++ text)

/-- Tests its arguments, the last of which is a bracket. -/
def bracketWith (say : TestFault → Act Unit) (args : List Octets) : Act Nat := do
  if args.getLast? = some [']'] then testWith say args.dropLast
  else
    say .missingBracket
    return 2

def test : Tool := testWith (sayOutside "test")

/-- Tests its arguments, the last of which is a bracket. -/
def bracket : Tool := bracketWith (sayOutside "[")

/-- Tests its arguments, as the interpreter does itself. -/
def testOwn : Tool := testWith sayOwn

/-- Tests its arguments up to a bracket, as the interpreter does itself. -/
def bracketOwn : Tool := bracketWith sayOwn

/-! ## Calculations -/

/-- Why words are no calculation. -/
inductive ExprFault
  | missingOperand
  | missingAfter (word : Octets)
  | unexpected (word : Octets)
  | unclosed (word : Octets)
  | notInteger
  | divisionByZero
  | badRegex (text : String)

/-- What is said about words that are no calculation. -/
def ExprFault.message : ExprFault → String
  | .missingOperand => "missing operand"
  | .missingAfter w => "syntax error: missing argument after " ++ shown w
  | .unexpected w => "syntax error: unexpected argument " ++ shown w
  | .unclosed w => "syntax error: expecting ')' after " ++ shown w
  | .notInteger => "non-integer argument"
  | .divisionByZero => "division by zero"
  | .badRegex text => text

/-- A result of a part of a calculation: its value, the last word of it, and the words behind it. -/
structure ExprResult where
  value : Octets
  last : Octets
  rest : List Octets

/-- A value that counts as false: nothing, or zero. -/
def isNothing (cs : Octets) : Bool :=
  match cs with
  | [] => true
  | '-' :: ds => !ds.isEmpty && ds.all (· = '0')
  | ds => ds.all (· = '0')

def exprNumber? (cs : Octets) : Option Int :=
  match cs with
  | '-' :: ds => (Text.nat? ds).map fun n => -(n : Int)
  | ds => (Text.nat? ds).map Int.ofNat

/-- The result of an operator between two values. -/
def exprBinary (a op b : Octets) : Except ExprFault Octets := do
  let truth (r : Bool) : Octets := if r then ['1'] else ['0']
  let order : Ordering := match exprNumber? a, exprNumber? b with
    | some x, some y => compare x y
    | _, _ => if Octets.precedes a b then .lt else if Octets.precedes b a then .gt else .eq
  let numbers : Except ExprFault (Int × Int) := match exprNumber? a, exprNumber? b with
    | some x, some y => .ok (x, y)
    | _, _ => .error .notInteger
  match String.ofList op with
  | "|" => return if !isNothing a then a else if !isNothing b then b else ['0']
  | "&" => return if isNothing a || isNothing b then ['0'] else a
  | "<" => return truth (order == .lt)
  | "<=" => return truth (order != .gt)
  | "=" | "==" => return truth (order == .eq)
  | "!=" => return truth (order != .eq)
  | ">=" => return truth (order != .lt)
  | ">" => return truth (order == .gt)
  | "+" => do
    let (x, y) ← numbers
    return Octets.ofInt (x + y)
  | "-" => do
    let (x, y) ← numbers
    return Octets.ofInt (x - y)
  | "*" => do
    let (x, y) ← numbers
    return Octets.ofInt (x * y)
  | "/" => do
    let (x, y) ← numbers
    if y = 0 then .error .divisionByZero else return Octets.ofInt (x.tdiv y)
  | "%" => do
    let (x, y) ← numbers
    if y = 0 then .error .divisionByZero else return Octets.ofInt (x.tmod y)
  | _ =>
    match Regex.parse .plain false b with
    | .error f => .error (.badRegex f.message)
    | .ok ⟨r, _⟩ =>
      let found? := (Regex.both .lineStart r).search [] a
      if 0 < Regex.groupCount r then
        return ((found?.bind fun m => m.groups.find? (·.1 = 1)).map Prod.snd).getD []
      else return Octets.ofNat ((found?.map fun m => m.found.length).getD 0)

/-- The operators between values by their rank, the weakest first. -/
def exprOperators : List (List String) :=
  [["|"], ["&"], ["<", "<=", "=", "==", "!=", ">=", ">"], ["+", "-"], ["*", "/", "%"], [":"]]

mutual

/-- The value of words with operators of some rank and of stronger ones; `last` is the word before. -/
def exprRank (rank : Nat) : Nat → Octets → List Octets → Except ExprFault ExprResult
  | 0, last, _ => .error (.missingAfter last)
  | fuel + 1, last, words =>
    match exprOperators[rank]? with
    | none => exprOperand fuel last words
    | some ops => do exprRest rank ops fuel (← exprRank (rank + 1) fuel last words)

/-- The value of words behind a value, up to the last operator of some rank. -/
def exprRest (rank : Nat) (ops : List String) :
    Nat → ExprResult → Except ExprFault ExprResult
  | 0, r => .ok r
  | fuel + 1, r =>
    match r.rest with
    | op :: rest =>
      if ops.contains (String.ofList op) then do
        let next ← exprRank (rank + 1) fuel op rest
        exprRest rank ops fuel ⟨← exprBinary r.value op next.value, next.last, next.rest⟩
      else .ok r
    | [] => .ok r

/-- The value of one word, of a calculation in parentheses, or of a function of words. -/
def exprOperand : Nat → Octets → List Octets → Except ExprFault ExprResult
  | 0, last, _ => .error (.missingAfter last)
  | _, last, [] => .error (.missingAfter last)
  | fuel + 1, _, word :: rest =>
    let argument (last : Octets) (words : List Octets) : Except ExprFault ExprResult :=
      exprOperand fuel last words
    match String.ofList word with
    | "(" => do
      let r ← exprRank 0 fuel word rest
      match r.rest with
      | [')'] :: rest => return ⟨r.value, [')'], rest⟩
      | w :: _ => .error (.unexpected w)
      | [] => .error (.unclosed r.last)
    | "+" =>
      match rest with
      | w :: rest => .ok ⟨w, w, rest⟩
      | [] => .error (.missingAfter word)
    | "length" => do
      let r ← argument word rest
      return { r with value := Octets.ofNat r.value.length }
    | "match" => do
      let a ← argument word rest
      let b ← argument a.last a.rest
      return { b with value := ← exprBinary a.value [':'] b.value }
    | "index" => do
      let a ← argument word rest
      let b ← argument a.last a.rest
      let place := (a.value.findIdx? b.value.contains).map (· + 1)
      return { b with value := Octets.ofNat (place.getD 0) }
    | "substr" => do
      let a ← argument word rest
      let b ← argument a.last a.rest
      let c ← argument b.last b.rest
      let part : Octets := match exprNumber? b.value, exprNumber? c.value with
        | some start, some count =>
          if start ≤ 0 ∨ count ≤ 0 then []
          else (a.value.drop (start.toNat - 1)).take count.toNat
        | _, _ => []
      return { c with value := part }
    | ")" => .error (.unexpected word)
    | _ => .ok ⟨word, word, rest⟩

end

/-- Prints the result of a calculation; what counts as false is a failure. -/
def expr : Tool := fun args => do
  let args := if args.head? = some ['-', '-'] then args.tail else args
  match args with
  | [] => decline "expr" ExprFault.missingOperand.message 2
  | words =>
    let result := do
      let r ← exprRank 0 (12 * words.length + 20) [] words
      match r.rest with
      | [] => return r.value
      | w :: _ => .error (.unexpected w)
    match result with
    | .error e => refuse "expr" e.message 2
    | .ok cs =>
      let _ ← Act.write (cs ++ ['\n'])
      return if isNothing cs then 1 else 0

end Tool

end Punctual.Shell
