import Punctual.Shell.Record.Token

/-!
# Reading record programs

Rules and functions stand one behind another. An operator binds tighter than those that are read
around it: a choice is read first, then alternatives, and so on down to operands. A name is that of a
table if it is used as one, or if it is given to a function that uses it as one.
-/

namespace Punctual.Shell.Record

/-! ## Regular expressions -/

/-- An octet that stands for itself in brackets. -/
def inBrackets (c : Char) : Octets :=
  if c = ']' || c = '[' || c = '^' || c = '-' || c = '\\' then ['[', '.', c, '.', ']'] else [c]

/-- An octet that stands for itself outside of brackets. -/
def outsideBrackets (c : Char) : Octets :=
  if c.isAlphanum then [c]
  else if c = '^' then ['\\', c]
  else ['[', c, ']']

/-- An expression in which no backslash has a meaning of its own: each octet behind one stands for itself
or for the octet that it names. -/
def plainRegex (isInner : Bool) : Nat → Octets → Octets
  | 0, _ | _, [] => []
  | fuel + 1, '\\' :: cs =>
    let (own, rest) := Token.escape cs
    let shown := own.filter fun c => !(own.length = 2 && c = '\\')
    shown.flatMap (if isInner then inBrackets else outsideBrackets) ++ plainRegex isInner fuel rest
  | fuel + 1, '[' :: ':' :: cs =>
    if isInner then
      let name := cs.takeWhile fun c => c.isAlpha
      '[' :: ':' :: name ++ plainClass fuel (cs.drop name.length)
    else '[' :: ':' :: plainRegex true fuel cs
  | fuel + 1, c :: cs =>
    if isInner then c :: plainRegex (c ≠ ']') fuel cs
    else if c = '[' then
      match cs with
      | '^' :: ']' :: cs => "[^]".toList ++ plainRegex true fuel cs
      | ']' :: cs => "[]".toList ++ plainRegex true fuel cs
      | cs => '[' :: plainRegex true fuel cs
    else c :: plainRegex false fuel cs
where
  /-- Goes on behind the name of a class. -/
  plainClass (fuel : Nat) (cs : Octets) : Octets :=
    match cs with
    | ':' :: ']' :: cs => ':' :: ']' :: plainRegex true fuel cs
    | cs => plainRegex true fuel cs

/-- What is said about a flaw of an expression. -/
def regexReport (cs : Octets) (words : String) : String :=
  "regular expression compile failed (" ++ words ++ ")\n" ++ Octets.toText cs

/-- The expression of octets, or what is said about them. -/
def regexOf (cs : Octets) : Except String Regex :=
  match Regex.parse .free false (plainRegex false (cs.length + 1) cs) with
  | .ok ⟨r, []⟩ => .ok r
  | .ok _ => .error (regexReport cs "missing operand")
  | .error .unmatchedOpening => .error (regexReport cs "missing ')'")
  | .error .unmatchedClosing => .error (regexReport cs "missing '('")
  | .error .tooBig =>
    .error (regexReport cs "resource exhaustion -- regular expression too large")
  | .error _ => .error (regexReport cs "bad class -- [], [^] or [")

/-! ## Readers -/

/-- A name in a function, or outside of all if the function has no name. -/
structure Slot where
  scope : String
  name : String
  deriving DecidableEq

/-- A name that is given to a function in a place. -/
structure Handing where
  slot : Slot
  callee : String
  place : Nat

/-- Where a statement stands. -/
inductive Zone
  | edge
  | main
  | inFunction
  deriving DecidableEq

/-- How far a program has been read. -/
structure Reading where
  words : List Located
  zone : Zone
  scope : String
  params : List String
  loops : Nat
  /-- How many patterns go from a record to another one. -/
  betweens : Nat
  tables : List Slot
  handings : List Handing
  /-- The functions that are called, with the number of arguments and the line. -/
  calls : List (String × Nat × Nat)

abbrev Reader := StateT Reading (Except Fault)

namespace Reader

variable {α : Type}

def peek : Reader Located := do
  return (← get).words.head?.getD ⟨.stop, "", 1, 0, 0⟩

def second : Reader Token := do
  return (((← get).words.drop 1).head?.map Located.token).getD .stop

def pass : Reader Unit :=
  modify fun s => { s with words := s.words.tail }

def unexpected : Reader α := do
  let t ← peek
  let isEnd := t.token == .stop || t.token == .newline || t.token == .mark ";" ||
    t.token == .mark "\x7d"
  if 0 < t.parens && isEnd then
    throw (.inLine t.line ("missing ) near " ++ t.shown))
  else if t.token == .stop && 0 < t.braces then
    throw (.inLine (t.line + 1) "missing \x7d near end of file")
  else throw (.inLine t.line ("syntax error at or near " ++ t.shown))

/-- Reports a fault in the line of the next word. -/
def fail (report : String) : Reader α := do
  throw (.inLine (← peek).line report)

/-- The next word is an operator or a separator. -/
def isMark (s : String) : Reader Bool := do
  return (← peek).token == .mark s

/-- Passes over an operator or a separator, if it is the next word. -/
def accept (s : String) : Reader Bool := do
  if ← isMark s then
    pass
    return true
  else return false

def expect (s : String) : Reader Unit := do
  if !(← accept s) then unexpected

def skip (isSkipped : Token → Bool) : Reader Unit :=
  modify fun s => { s with words := s.words.dropWhile fun t => isSkipped t.token }

def newlines : Reader Unit :=
  skip (· == .newline)

def gaps : Reader Unit :=
  skip fun t => t == .newline || t == .mark ";"

def name : Reader String := do
  match (← peek).token with
  | .name n =>
    pass
    return n
  | _ => unexpected

def slot (n : String) : Reader Slot := do
  let s ← get
  return ⟨if s.params.contains n then s.scope else "", n⟩

def noteTable (n : String) : Reader Unit := do
  let slot ← slot n
  modify fun s => { s with tables := slot :: s.tables }

def noteCall (f : String) (line : Nat) (args : List Expr) : Reader Unit := do
  modify fun s => { s with calls := (f, args.length, line) :: s.calls }
  for (e, i) in args.zipIdx do
    if let .variable n := e then
      let slot ← slot n
      modify fun s => { s with handings := ⟨slot, f, i⟩ :: s.handings }

/-! ## Expressions -/

/-- A statement ends in front of the next word. -/
def isEnd : Token → Bool
  | .newline | .stop => true
  | .mark s => s == ";" || s == "\x7d"
  | _ => false

/-- Which operators are not read as such: `in`, and the sign for more, behind which output goes. -/
structure Setting where
  withoutIn : Bool
  withoutMore : Bool

def Setting.full : Setting := ⟨false, false⟩

/-- Something can be assigned to the expression. -/
def isTarget : Expr → Bool
  | .variable _ | .field _ | .element _ _ => true
  | _ => false

/-- What an operator makes of two expressions, for those that stand on one level. -/
abbrev Level := Token → Option (Expr → Expr → Expr)

/-- Expressions with operators of a level between them, from left to right. -/
def chain (level : Level) (sub : Reader Expr) : Nat → Expr → Reader Expr
  | 0, e => return e
  | fuel + 1, e => do
    let t := (← peek).token
    match level t with
    | none => return e
    | some combine =>
      pass
      if t == .mark "&&" || t == .mark "||" then newlines
      let b ← sub
      chain level sub fuel (combine e b)

def products : Level
  | .mark "*" => some (.apply .times)
  | .mark "/" => some (.apply .over)
  | .mark "%" => some (.apply .modulo)
  | _ => none

def sums : Level
  | .mark "+" => some (.apply .plus)
  | .mark "-" => some (.apply .minus)
  | _ => none

def relations (s : Setting) : Level
  | .mark "<" => some (.compare .less)
  | .mark "<=" => some (.compare .atMost)
  | .mark "==" => some (.compare .same)
  | .mark "!=" => some (.compare .different)
  | .mark ">=" => some (.compare .atLeast)
  | .mark ">" => if s.withoutMore then none else some (.compare .more)
  | _ => none

def matchings : Level
  | .mark "~" => some .matching
  | .mark "!~" => some fun a b => .not (.matching a b)
  | _ => none

/-- The operator of expressions that are all true. -/
def conjunctions : Level
  | .mark "&&" => some .both
  | _ => none

/-- The operator of expressions one of which is true. -/
def disjunctions : Level
  | .mark "||" => some .either
  | _ => none

/-- The operation that an assignment makes first, if the word is one. -/
def assignment? : Token → Option (Option Operation)
  | .mark "=" => some none
  | .mark "+=" => some (some .plus)
  | .mark "-=" => some (some .minus)
  | .mark "*=" => some (some .times)
  | .mark "/=" => some (some .over)
  | .mark "%=" => some (some .modulo)
  | .mark "^=" => some (some .power)
  | _ => none

/-- An operand can start with the word, behind another one. -/
def startsOperand : Token → Bool
  | .number _ | .text _ | .regex _ | .name _ | .callee _ | .known _ => true
  | .mark s => ["$", "(", "++", "--", "!"].contains s
  | _ => false

def joined (sub : Reader Expr) : Nat → Expr → Reader Expr
  | 0, e => return e
  | fuel + 1, e => do
    if startsOperand (← peek).token then
      if (assignment? (← second)).isSome then
        pass
        unexpected
      let b ← sub
      joined sub fuel (.apply .join e b)
    else return e

/-- Tables that may have the value of an expression as a key. -/
def inTables (s : Setting) : Nat → Expr → Reader Expr
  | 0, e => return e
  | fuel + 1, e => do
    if !s.withoutIn && (← peek).token == .keyword "in" then
      pass
      let table ← name
      noteTable table
      inTables s fuel (.contains [e] table)
    else return e

/-- How many arguments a known function takes: at least, and at most. -/
def arity : Known → Nat × Nat
  | .length | .seed | .flush => (0, 1)
  | .substr | .split | .replace _ => (2, 3)
  | .index | .match | .atan2 => (2, 2)
  | .format => (1, 1000)
  | .random => (0, 0)
  | _ => (1, 1)

def knownName (f : Known) : String :=
  ((Token.knownFunctions.find? fun (_, g) => g == f).map Prod.fst).getD ""

mutual

def expr (s : Setting) : Nat → Reader Expr
  | 0 => unexpected
  | fuel + 1 => do
    let product := do chain products (unary s fuel) fuel (← unary s fuel)
    let sum := do chain sums product fuel (← product)
    let text := do joined sum fuel (← sum)
    let relation := do chain (relations s) text fuel (← text)
    let matched := do chain matchings relation fuel (← relation)
    let found := do inTables s fuel (← matched)
    let both := do chain conjunctions found fuel (← found)
    let c ← chain disjunctions both fuel (← both)
    if ← accept "?" then
      newlines
      let a ← expr s fuel
      newlines
      expect ":"
      newlines
      let b ← expr s fuel
      return .choice c a b
    else return c

/-- An operand with a sign in front, or a power. -/
def unary (s : Setting) : Nat → Reader Expr
  | 0 => unexpected
  | fuel + 1 => do
    if ← accept "!" then return .not (← unary s fuel)
    else if ← accept "-" then return .negative (← unary s fuel)
    else if ← accept "+" then return .positive (← unary s fuel)
    else
      let e ← operand s fuel
      if ← accept "^" then return .apply .power e (← unary s fuel)
      else return e

/-- An operand with what is assigned to it, or with the records that are taken from a command. -/
def operand (s : Setting) : Nat → Reader Expr
  | 0 => unexpected
  | fuel + 1 => do
    let e ← primary s fuel
    let t := (← peek).token
    let e ← match isTarget e, assignment? t with
      | true, some none =>
        pass
        newlines
        pure (.assign e (← expr s fuel))
      | true, some (some op) =>
        pass
        newlines
        pure (.update op e (← expr s fuel))
      | true, none =>
        if ← accept "++" then pure (.step true true e)
        else if ← accept "--" then pure (.step false true e)
        else pure e
      | false, _ => pure e
    fromCommand s fuel e

/-- Records that are taken from the command that an expression gives. -/
def fromCommand (s : Setting) : Nat → Expr → Reader Expr
  | 0, e => return e
  | fuel + 1, e => do
    if (← isMark "|") && (← second) == .keyword "getline" then
      pass
      pass
      let target ← target? s fuel
      fromCommand s fuel (.lineFrom e target)
    else return e

/-- What a record is assigned to, if that is named. -/
def target? (s : Setting) : Nat → Reader (Option Expr)
  | 0 => unexpected
  | fuel + 1 => do
    match (← peek).token with
    | .name _ | .mark "$" => return some (← primary s fuel)
    | _ => return none

def primary (s : Setting) : Nat → Reader Expr
  | 0 => unexpected
  | fuel + 1 => do
    let t ← peek
    match t.token with
    | .number x =>
      pass
      return .number x
    | .text cs =>
      pass
      return .text cs
    | .regex cs =>
      match regexOf cs with
      | .ok r =>
        pass
        return .regex r
      | .error report => fail report
    | .mark "$" =>
      pass
      match (← peek).token with
      | .mark "-" | .mark "+" | .mark "!" => return .field (← unary s fuel)
      | _ => return .field (← primary s fuel)
    | .mark "++" => step s true fuel
    | .mark "--" => step s false fuel
    | .mark "(" =>
      pass
      let es ← exprs .full fuel
      expect ")"
      match es with
      | [e] => return e
      | es =>
        if (← peek).token == .keyword "in" then
          pass
          let table ← name
          noteTable table
          return .contains es table
        else
          let t := (← peek).token
          let isLast := isEnd t || t == .mark ">" || t == .mark ">>" || t == .mark "|"
          if isLast then return .several es else unexpected
    | .name n =>
      pass
      if ← accept "[" then
        let es ← exprs .full fuel
        expect "]"
        noteTable n
        return .element n es
      else return .variable n
    | .callee f =>
      pass
      let args ← arguments fuel
      noteCall f t.line args
      return .call f args
    | .known f =>
      pass
      let args ← if f == .length && !(← isMark "(") then pure [] else arguments fuel
      let (least, most) := arity f
      if f == .length && 1 < args.length then
        throw (.inLine t.line "syntax error at or near ,")
      if args.length < least || most < args.length then
        throw (.inLine t.line ("wrong number of arguments in call to " ++ knownName f))
      match f, args with
      | .split, _ :: .variable n :: _ => noteTable n
      | .split, _ => throw (.inLine t.line "syntax error at or near ,")
      | _, _ => pure ()
      return .known f args
    | .keyword "getline" =>
      pass
      let target ← target? s fuel
      if ← accept "<" then
        let path ← primary s fuel
        return .lineOf path target
      else return .line target
    | _ => unexpected

/-- An operand that is made more or less by one first. -/
def step (s : Setting) (up : Bool) : Nat → Reader Expr
  | 0 => unexpected
  | fuel + 1 => do
    pass
    let e ← primary s fuel
    if isTarget e then return .step up false e else unexpected

def exprs (s : Setting) : Nat → Reader (List Expr)
  | 0 => unexpected
  | fuel + 1 => do
    let e ← expr s fuel
    if ← accept "," then
      newlines
      return e :: (← exprs s fuel)
    else return [e]

def arguments : Nat → Reader (List Expr)
  | 0 => unexpected
  | fuel + 1 => do
    expect "("
    newlines
    if ← accept ")" then return []
    let es ← exprs .full fuel
    newlines
    expect ")"
    return es

end

/-! ## Statements -/

def nothing : Stmt := .block []

def ending : Reader Unit := do
  let t := (← peek).token
  if t == .newline || t == .mark ";" then
    pass
    newlines
  else if !(t == .mark "\x7d") then unexpected

def expr? (fuel : Nat) : Reader (Option Expr) := do
  if isEnd (← peek).token then return none else return some (← expr .full fuel)

def way? (fuel : Nat) : Reader (Option (Way × Expr)) := do
  if ← accept ">" then return some (.anew, ← expr .full fuel)
  else if ← accept ">>" then return some (.append, ← expr .full fuel)
  else if ← accept "|" then return some (.command, ← expr .full fuel)
  else return none

/-- The expressions of a statement that writes. -/
def written (fuel : Nat) : Reader (List Expr) := do
  let t := (← peek).token
  if isEnd t || t == .mark ">" || t == .mark ">>" || t == .mark "|" then return []
  match ← exprs ⟨false, true⟩ fuel with
  | [.several es] => return es
  | es => return es

/-- A statement that is allowed in some zones only. -/
def allowedIn (isAllowed : Bool) (report : String) (st : Stmt) : Reader Stmt := do
  if isAllowed then
    pass
    return st
  else fail report

def simple (fuel : Nat) : Reader Stmt := do
  let place ← get
  match (← peek).token with
  | .keyword "print" =>
    pass
    let args ← written fuel
    return .print args (← way? fuel)
  | .keyword "printf" =>
    pass
    let args ← written fuel
    if args.isEmpty then fail "no arguments in call to printf"
    return .format args (← way? fuel)
  | .keyword "next" => allowedIn (place.zone = .main) "improper use of next" .next
  | .keyword "nextfile" => allowedIn (place.zone = .main) "improper use of nextfile" .nextFile
  | .keyword "break" => allowedIn (place.loops ≠ 0) "break statement outside of loop" .leave
  | .keyword "continue" => allowedIn (place.loops ≠ 0) "continue statement outside of loop" .goOn
  | .keyword "exit" =>
    pass
    return .exit (← expr? fuel)
  | .keyword "return" =>
    if place.zone ≠ .inFunction then fail "return outside function body"
    pass
    return .back (← expr? fuel)
  | .keyword "delete" =>
    pass
    let table ← name
    noteTable table
    if ← accept "[" then
      let es ← exprs .full fuel
      expect "]"
      return .delete table es
    else return .clear table
  | _ => return .express (← expr .full fuel)

def inLoop (body : Reader Stmt) : Reader Stmt := do
  modify fun s => { s with loops := s.loops + 1 }
  let st ← body
  modify fun s => { s with loops := s.loops - 1 }
  return st

def condition (fuel : Nat) : Reader Expr := do
  expect "("
  let c ← expr .full fuel
  expect ")"
  return c

/-- The names of a walk through a table, if that is what a loop is. -/
def walk? : Reader (Option (String × String)) := do
  match ((← get).words.take 4).map Located.token with
  | [.name n, .keyword "in", .name table, .mark ")"] =>
    noteTable table
    modify fun s => { s with words := s.words.drop 4 }
    return some (n, table)
  | _ => return none

mutual

def stmt : Nat → Reader Stmt
  | 0 => unexpected
  | fuel + 1 => do
    match (← peek).token with
    | .mark "\x7b" =>
      let st ← block fuel
      newlines
      return st
    | .mark ";" =>
      pass
      newlines
      return nothing
    | .keyword "if" =>
      pass
      let c ← condition fuel
      newlines
      let yes ← stmt fuel
      let isElse := (← peek).token == .keyword "else" ||
        ((← isMark ";") && (← second) == .keyword "else")
      if isElse then
        skip fun t => t == .mark ";"
        pass
        newlines
        return .cond c yes (← stmt fuel)
      else return .cond c yes nothing
    | .keyword "while" =>
      pass
      let c ← condition fuel
      if ← accept ";" then
        newlines
        return .loop c nothing
      newlines
      return .loop c (← inLoop (stmt fuel))
    | .keyword "do" =>
      pass
      newlines
      let body ← inLoop (stmt fuel)
      gaps
      if (← peek).token == .keyword "while" then
        pass
        let c ← condition fuel
        ending
        return .loopAfter body c
      else unexpected
    | .keyword "for" =>
      pass
      expect "("
      match ← walk? with
      | some (n, table) =>
        newlines
        return .each n table (← inLoop (stmt fuel))
      | none =>
        let start ← if ← isMark ";" then pure nothing else simple fuel
        expect ";"
        newlines
        let c ← if ← isMark ";" then pure none else some <$> expr .full fuel
        expect ";"
        newlines
        let step ← if ← isMark ")" then pure nothing else simple fuel
        expect ")"
        if ← accept ";" then
          newlines
          return .count start c step nothing
        newlines
        return .count start c step (← inLoop (stmt fuel))
    | _ =>
      let st ← simple fuel
      ending
      return st

def block : Nat → Reader Stmt
  | 0 => unexpected
  | fuel + 1 => do
    expect "\x7b"
    gaps
    let ss ← stmts fuel
    expect "\x7d"
    return .block ss

def stmts : Nat → Reader (List Stmt)
  | 0 => unexpected
  | fuel + 1 => do
    if ← isMark "\x7d" then return []
    else
      let st ← stmt fuel
      return st :: (← stmts fuel)

end

/-! ## Programs -/

/-- A part of a program. -/
inductive Item
  | rule (r : Rule)
  | function (f : Function)

def inZone (zone : Zone) (scope : String) (params : List String) (fuel : Nat) : Reader Stmt := do
  modify fun s => { s with zone, scope, params, loops := 0 }
  let body ← block fuel
  modify fun s => { s with zone := .main, scope := "", params := [] }
  return body

def params : Nat → Reader (List String)
  | 0 => unexpected
  | fuel + 1 => do
    let n ← name
    if ← accept "," then
      newlines
      let more ← params fuel
      if more.contains n then fail (n ++ " is duplicated in argument list")
      return n :: more
    else return [n]

def function (fuel : Nat) : Reader Function := do
  pass
  let f ← match (← peek).token with
    | .name f | .callee f =>
      pass
      pure f
    | _ => unexpected
  expect "("
  let ps ← if ← isMark ")" then pure [] else params fuel
  expect ")"
  newlines
  let body ← inZone .inFunction f ps fuel
  return ⟨f, ps, [], body⟩

/-- A part of a program, with the separators behind it. -/
def item (fuel : Nat) : Reader Item := do
  let part ← match (← peek).token with
    | .keyword "function" => .function <$> function fuel
    | .keyword "BEGIN" =>
      pass
      pure (.rule ⟨.first, ← inZone .edge "" [] fuel⟩)
    | .keyword "END" =>
      pass
      pure (.rule ⟨.last, ← inZone .edge "" [] fuel⟩)
    | .mark "\x7b" => pure (.rule ⟨.always, ← inZone .main "" [] fuel⟩)
    | _ =>
      let a ← expr .full fuel
      let pattern ← if ← accept "," then
          newlines
          let b ← expr .full fuel
          let n := (← get).betweens
          modify fun s => { s with betweens := n + 1 }
          pure (Pattern.between n a b)
        else pure (.selected a)
      let t := (← peek).token
      if t == .mark "\x7b" then pure (.rule ⟨pattern, ← inZone .main "" [] fuel⟩)
      else if t == .newline || t == .stop || t == .mark ";" then
        pure (.rule ⟨pattern, .print [] none⟩)
      else unexpected
  let _ ← accept ";"
  newlines
  return part

def items : Nat → Reader (List Item)
  | 0 => unexpected
  | fuel + 1 => do
    if (← peek).token == .stop then return []
    else
      let part ← item fuel
      return part :: (← items fuel)

end Reader

/-- All names that are those of tables, as names are given to functions. -/
def allTables (functions : List Function) (handings : List Handing) : Nat → List Slot → List Slot
  | 0, slots => slots
  | fuel + 1, slots =>
    let more := handings.filterMap fun h => do
      let f ← functions.find? fun f => f.name == h.callee
      let param ← f.params[h.place]?
      let inner : Slot := ⟨f.name, param⟩
      if slots.contains inner && !slots.contains h.slot then some h.slot
      else if slots.contains h.slot && !slots.contains inner then some inner
      else none
    if more.isEmpty then slots else allTables functions handings fuel (more ++ slots)

def callFault? (functions : List Function) (end_ : Nat) : List (String × Nat × Nat) → Option Fault
  | [] => none
  | (f, count, line) :: calls =>
    match functions.find? fun g => g.name == f with
    | none => some (.inLine end_ ("function " ++ f ++ " never defined"))
    | some g =>
      if g.params.length < count then
        some (.inLine line ("too many arguments in call to " ++ f))
      else callFault? functions end_ calls

def Program.parse (cs : Octets) : Except Fault Program := do
  let words ← tokens cs
  let start : Reading := ⟨words, .main, "", [], 0, 0, [], [], []⟩
  let fuel := 20 * words.length + 40
  let read : Reader (List Reader.Item) := do
    Reader.newlines
    Reader.items fuel
  let (parts, s) ← read.run start
  let rules := parts.filterMap fun
    | .rule r => some r
    | .function _ => none
  let functions := parts.filterMap fun
    | .function f => some f
    | .rule _ => none
  let lines := (words.getLast?.map Located.line).getD 1
  if let some e := callFault? functions (lines + 1) s.calls.reverse then throw e
  let slots := allTables functions s.handings (s.handings.length + 1) s.tables
  let tables (f : Function) : List String := f.params.filter fun p => slots.contains ⟨f.name, p⟩
  return ⟨rules, functions.map fun f => { f with tables := tables f }⟩

end Punctual.Shell.Record
