import Punctual.Shell.Script
import Punctual.Text.Lines
import Punctual.Text.Search

/-!
# Reading scripts

A script is read from left to right. Where a command may begin, some words are keywords; everywhere
else a word is a run of octets up to a blank, a line break or an operator, and quotes, backslashes
and the sign `$` are read inside it. The text that a command gets as its input stands in the lines
behind the command, up to a line with a word that the command names.

The readers that call one another count down, from a number that the length of the script bounds.
-/

namespace Punctual.Shell

/-- Why octets are no script, and how many line feeds lie behind the place where they are not. -/
structure SyntaxFault where
  text : String
  left : Nat
  deriving Repr

abbrev Read := Except SyntaxFault

/-- Takes a value from the front of some octets. -/
abbrev Take (α : Type) := Octets → Read (α × Octets)

/-! ## Layout and keywords -/

def isMeta (c : Char) : Bool :=
  isLayout c || c == ';' || c == '&' || c == '|' || c == '<' || c == '>' || c == '(' || c == ')'

/-- The octets behind blanks, joined lines and a comment. -/
def skipBlanks : Octets → Octets
  | [] => []
  | '\\' :: '\n' :: cs => skipBlanks cs
  | c :: cs =>
    if isSpace c then skipBlanks cs
    else if c = '#' then cs.dropWhile (· ≠ '\n')
    else c :: cs

/-- The octets behind blanks, comments and line breaks. -/
def skipBreaks : Nat → Octets → Octets
  | 0, cs => cs
  | fuel + 1, cs =>
    match skipBlanks cs with
    | '\n' :: rest => skipBreaks fuel rest
    | rest => rest

def skipLayout (cs : Octets) : Octets :=
  skipBreaks cs.length cs

/-- The run of octets at the front that no operator, blank or quote ends. -/
def peekWord (cs : Octets) : String :=
  .ofList (cs.takeWhile fun c => !isMeta c && c != '"' && c != '\'' && c != '$' && c != '\\')

def closers : List String :=
  ["then", "else", "elif", "fi", "do", "done", "esac", "\x7d"]

def endsList (cs : Octets) : Bool :=
  match cs with
  | [] => true
  | ')' :: _ => true
  | ';' :: ';' :: _ => true
  | cs => peekWord cs ∈ closers

/-- Words that are keywords where a command may begin. -/
def keywords : List String :=
  closers ++ ["if", "while", "until", "for", "case", "in", "!", "\x7b"]

/-- What stands at the front, as it is named in reports; keywords are named if `commands`. -/
def tokenName (commands : Bool) (cs : Octets) : String :=
  match cs with
  | [] => "end of file"
  | '\n' :: _ => "newline"
  | ';' :: ';' :: _ => "\";;\""
  | '&' :: '&' :: _ => "\"&&\""
  | '|' :: '|' :: _ => "\"||\""
  | '<' :: _ | '>' :: _ => "redirection"
  | c :: _ =>
    if isMeta c then "\"" ++ c.toString ++ "\""
    else
      let word := peekWord cs
      if commands && keywords.contains word then "\"" ++ word ++ "\"" else "word"

/-- The octets are no script from some place on. A line feed there counts as read. -/
def wrong {α : Type} (text : String) (cs : Octets) : Read α :=
  .error ⟨text, (if cs.head? = some '\n' then cs.tail else cs).count '\n'⟩

/-- How reports name any word that is expected. -/
def anyWord : String := "word"

/-- What stands at the front may not stand there; something else is expected if it is named. -/
def unexpected {α : Type} (cs : Octets) (expected : String := "") (commands : Bool := true) :
    Read α :=
  let cs := skipBlanks cs
  wrong (tokenName commands cs ++ " unexpected" ++
    if expected = "" then ""
    else if expected = anyWord then " (expecting word)"
    else " (expecting \"" ++ expected ++ "\")") cs

/-- The octets behind a keyword, which may have layout in front. -/
def keyword? (word : String) (cs : Octets) : Option Octets :=
  let cs := skipLayout cs
  if peekWord cs = word then some (cs.drop word.toList.length) else none

/-- The octets behind a keyword that has to stand here. -/
def keyword (word : String) (cs : Octets) : Read Octets :=
  match keyword? word cs with
  | some rest => .ok rest
  | none => unexpected (skipLayout cs) word

def isNameStart (c : Char) : Bool :=
  c.isAlpha || c == '_'

def isNameChar (c : Char) : Bool :=
  c.isAlphanum || c == '_'

def isName (cs : Octets) : Bool :=
  match cs with
  | [] => false
  | c :: cs => isNameStart c && cs.all isNameChar

/-! ## Parts of words -/

def consPlain (c : Char) : List Part → List Part
  | .plain cs :: ps => .plain (c :: cs) :: ps
  | ps => .plain [c] :: ps

def consQuoted (c : Char) : List Part → List Part
  | .quoted cs :: ps => .quoted (c :: cs) :: ps
  | ps => .quoted [c] :: ps

/-- Where parts are read, and where they end. -/
inductive Zone
  /-- In a word, up to an operator or blank. -/
  | bare
  /-- In double quotes, up to their end. -/
  | quotes
  /-- In braces, up to their end. -/
  | braces (isQuoted : Bool)
  /-- In double quotes, to the end of all octets. -/
  | all
  deriving DecidableEq

/-- Octets stand for themselves here, except for the sign `$` and some backslashes. -/
def Zone.isQuoted : Zone → Bool
  | .bare => false
  | .quotes | .all => true
  | .braces q => q

def Zone.endsAt (p : Zone) (c : Char) : Bool :=
  match p with
  | .bare => isMeta c
  | .quotes => c == '"'
  | .braces _ => c == '\x7d'
  | .all => false

/-- The octets up to the two parentheses that end a sum, and those behind them. -/
def sumText : Nat → Octets → Option (Octets × Octets)
  | _, [] => none
  | depth, c :: cs =>
    if c = ')' then
      match depth, cs with
      | 0, ')' :: rest => some ([], rest)
      | 0, _ => none
      | d + 1, cs => (sumText d cs).map fun (a, rest) => (c :: a, rest)
    else
      (sumText (if c = '(' then depth + 1 else depth) cs).map fun (a, rest) => (c :: a, rest)

/-- A name, a digit or a sign that names a parameter. -/
def parameterName (inBraces : Bool) (cs : Octets) : Option (String × Octets) :=
  match cs with
  | [] => none
  | c :: rest =>
    if isNameStart c then
      some (.ofList (c :: rest.takeWhile isNameChar), rest.dropWhile isNameChar)
    else if c.isDigit then
      if inBraces then
        some (.ofList (c :: rest.takeWhile Char.isDigit), rest.dropWhile Char.isDigit)
      else some (c.toString, rest)
    else if c = '@' ∨ c = '*' ∨ c = '#' ∨ c = '?' ∨ c = '$' ∨ c = '!' ∨ c = '-' then
      some (c.toString, rest)
    else none

/-- The transform that an operator in braces stands for. -/
def transform? : Octets → Option (Transform × Octets)
  | ':' :: '-' :: cs => some (.default true, cs)
  | ':' :: '=' :: cs => some (.assign true, cs)
  | ':' :: '+' :: cs => some (.alternative true, cs)
  | '-' :: cs => some (.default false, cs)
  | '=' :: cs => some (.assign false, cs)
  | '+' :: cs => some (.alternative false, cs)
  | ':' :: '?' :: cs => some (.required true, cs)
  | '?' :: cs => some (.required false, cs)
  | '#' :: '#' :: cs => some (.dropStart true, cs)
  | '#' :: cs => some (.dropStart false, cs)
  | '%' :: '%' :: cs => some (.dropEnd true, cs)
  | '%' :: cs => some (.dropEnd false, cs)
  | _ => none

def Transform.isPattern : Transform → Bool
  | .dropStart _ | .dropEnd _ => true
  | _ => false

/-- The digits in front of an operator that changes a channel, and the operator. -/
def redirectStart? (cs : Octets) : Option (Nat × RedirectKind × Octets) :=
  let digits := cs.takeWhile Char.isDigit
  let channel (n : Nat) := if digits.isEmpty then n else Text.natOfDigits digits
  match cs.dropWhile Char.isDigit with
  | '>' :: '>' :: rest => some (channel 1, .append, rest)
  | '>' :: '&' :: rest => some (channel 1, .same, rest)
  | '>' :: '|' :: rest => some (channel 1, .overwrite, rest)
  | '>' :: rest => some (channel 1, .output, rest)
  | '<' :: '<' :: _ => none
  | '<' :: '&' :: rest => some (channel 0, .same, rest)
  | '<' :: rest => some (channel 0, .input, rest)
  | _ => none

/-- The channel whose text stands in the lines behind a command, whether tabs in front of these
lines are dropped, and the octets behind the operator. -/
def textStart? (cs : Octets) : Option (Nat × Bool × Octets) :=
  let digits := cs.takeWhile Char.isDigit
  let n := if digits.isEmpty then 0 else Text.natOfDigits digits
  match cs.dropWhile Char.isDigit with
  | '<' :: '<' :: '-' :: rest => some (n, true, rest)
  | '<' :: '<' :: rest => some (n, false, rest)
  | _ => none

/-- The text of the lines up to the one that is the word `last`, and the lines behind it. -/
def linesUpTo (dropsTabs : Bool) (last : Octets) : List Octets → Octets × List Octets
  | [] => ([], [])
  | l :: ls =>
    let l := if dropsTabs then l.dropWhile (· == '\t') else l
    if l = last then ([], ls)
    else
      let (before, after) := linesUpTo dropsTabs last ls
      (l ++ (if ls.isEmpty then [] else '\n' :: before), after)

/-- The text that stands behind the current line up to the word `last`, and the octets without
it. -/
def takeText (dropsTabs : Bool) (last : Octets) (cs : Octets) : Octets × Octets :=
  match Text.pieces cs with
  | [] => ([], cs)
  | line :: ls =>
    let (text, after) := linesUpTo dropsTabs last ls
    (text, List.intercalate ['\n'] (line :: after))

/-- The octets of a word that is not expanded, and whether a part of it is quoted. -/
def literalOf (w : Word) : Octets × Bool :=
  (w.flatMap fun
    | .plain cs | .quoted cs => cs
    | _ => [],
   w.any fun
    | .quoted _ => true
    | _ => false)

/-- The sign around a script whose output is filled in. -/
def backquote : Char := .ofNat 96

/-- The script up to the next backquote, and the octets behind it. A backslash in front of a
backquote, another backslash or the sign `$` is dropped. -/
def backquoted : Octets → Option (Octets × Octets)
  | [] => none
  | '\\' :: c :: cs =>
    (backquoted cs).map fun (inner, rest) =>
      (if c = backquote ∨ c = '\\' ∨ c = '$' then c :: inner else '\\' :: c :: inner, rest)
  | c :: cs =>
    if c = backquote then some ([], cs)
    else (backquoted cs).map fun (inner, rest) => (c :: inner, rest)

/-- The name that a word in front of an equality sign sets, and the octets behind the sign. -/
def settingStart? (cs : Octets) : Option (String × Octets) :=
  match Text.cutAt? '=' cs with
  | some (name, rest) => if isName name then some (.ofList name, rest) else none
  | none => none

/-- The commands of the interpreter in which an error ends it. They keep the settings in front of
them. -/
def specialCommands : List String :=
  [":", "exit", "return", "break", "continue", "shift", "set", "unset", "export", "readonly", "exec",
    "eval", ".", "trap", "times", "local"]

/-- The name of a function that is defined here, and the octets behind its parentheses. -/
def functionStart? (cs : Octets) : Option (String × Octets) :=
  let name := cs.takeWhile isNameChar
  match skipBlanks (cs.dropWhile isNameChar) with
  | '(' :: rest =>
    match skipBlanks rest with
    | ')' :: rest =>
      if isName name && !specialCommands.contains (.ofList name) then some (.ofList name, rest)
      else none
    | _ => none
  | _ => none

/-! ## Words and scripts -/

def Zone.unended : Zone → String
  | .braces false => "Missing '\x7d'"
  | _ => "Unterminated quoted string"

mutual

def parts (zone : Zone) : Nat → Take (List Part)
  | 0, cs => unexpected cs
  | _ + 1, [] => if zone = .bare ∨ zone = .all then .ok ([], []) else wrong zone.unended []
  | fuel + 1, c :: cs =>
    if zone.endsAt c then .ok ([], c :: cs)
    else if c = '\\' then
      match cs with
      | [] => .ok ([.quoted ['\\']], [])
      | '\n' :: cs => parts zone fuel cs
      | d :: ds =>
        let keeps := zone.isQuoted && d != '$' && (d != '"' || zone == .all) && d != '\\' &&
          d != backquote && !(d == '\x7d' && zone == .braces true)
        if keeps then do
          let (ps, rest) ← parts zone fuel cs
          return (consQuoted '\\' ps, rest)
        else do
          let (ps, rest) ← parts zone fuel ds
          return (consQuoted d ps, rest)
    else if c = '$' then do
      let (p, rest) ← dollar zone.isQuoted fuel cs
      let (ps, rest) ← parts zone fuel rest
      return (p :: ps, rest)
    else if c = backquote then
      match backquoted cs with
      | none => wrong "EOF in backquote substitution" []
      | some (inner, rest) => do
        match ← script fuel inner with
        | (s, []) =>
          let (ps, rest) ← parts zone fuel rest
          return (.output zone.isQuoted (some (inner.count '\n')) s :: ps, rest)
        | (_, left) => unexpected left
    else if c = '"' ∧ zone ≠ .all ∧ zone ≠ .braces true then do
      let (inner, rest) ← parts .quotes fuel cs
      let (ps, rest) ← parts zone fuel (rest.drop 1)
      return ((if inner.isEmpty then [.quoted []] else inner) ++ ps, rest)
    else if c = '\'' ∧ !zone.isQuoted then
      match Text.cutAt? '\'' cs with
      | none => wrong "Unterminated quoted string" []
      | some (inner, rest) => do
        let (ps, rest) ← parts zone fuel rest
        return (.quoted inner :: ps, rest)
    else do
      let (ps, rest) ← parts zone fuel cs
      return (if zone.isQuoted then consQuoted c ps else consPlain c ps, rest)

def dollar (isQuoted : Bool) : Nat → Take Part
  | 0, cs => unexpected cs
  | fuel + 1, cs =>
    match cs with
    | '(' :: '(' :: rest =>
      match sumText 0 rest with
      | some (text, rest) => do
        let (ps, _) ← parts .all fuel text
        return (.sum isQuoted ps, rest)
      | none => wrong "Missing '))'" []
    | '(' :: rest => commandOutput isQuoted fuel rest
    | '\x7b' :: rest => inBraces isQuoted fuel rest
    | cs =>
      match parameterName false cs with
      | some (name, rest) => .ok (.parameter isQuoted name .none [], rest)
      | none => .ok (if isQuoted then .quoted ['$'] else .plain ['$'], cs)

/-- A script whose output is filled in, up to its closing parenthesis. -/
def commandOutput (isQuoted : Bool) : Nat → Take Part
  | 0, cs => unexpected cs
  | fuel + 1, cs => do
    match ← script fuel cs with
    | (s, ')' :: rest) => return (.output isQuoted none s, rest)
    | (_, rest) => unexpected rest ")"

/-- A parameter in braces. One whose operator is not known is wrong only when it is used. -/
def inBraces (isQuoted : Bool) : Nat → Take Part
  | 0, cs => unexpected cs
  | fuel + 1, cs =>
    let bad : Read (Part × Octets) :=
      match Text.cutAt? '\x7d' cs with
      | some (_, rest) => .ok (.parameter isQuoted "" .none [], rest)
      | none => wrong (Zone.braces isQuoted).unended []
    match cs with
    | [] => wrong (Zone.braces isQuoted).unended []
    | '#' :: '\x7d' :: rest => .ok (.parameter isQuoted "#" .none [], rest)
    | '#' :: rest =>
      match parameterName true rest with
      | some (name, '\x7d' :: rest) => .ok (.parameter isQuoted name .length [], rest)
      | _ => bad
    | cs =>
      match parameterName true cs with
      | none => bad
      | some (name, '\x7d' :: rest) => .ok (.parameter isQuoted name .none [], rest)
      | some (_, []) => wrong (Zone.braces isQuoted).unended []
      | some (name, rest) =>
        match transform? rest with
        | none => bad
        | some (t, rest) => do
          let (ps, rest) ← parts (.braces (isQuoted && !t.isPattern)) fuel rest
          return (.parameter isQuoted name t ps, rest.drop 1)

def word : Nat → Take Word
  | 0, cs => unexpected cs
  | fuel + 1, cs => do
    let (ps, rest) ← parts .bare fuel (skipBlanks cs)
    if ps.isEmpty then unexpected cs "" false
    else return (ps, rest)

def wordList : Nat → Take (List Word)
  | 0, cs => unexpected cs
  | fuel + 1, cs =>
    match skipBlanks cs with
    | [] => .ok ([], [])
    | c :: rest =>
      if isMeta c then .ok ([], c :: rest)
      else do
        let (w, rest) ← word fuel (c :: rest)
        let (ws, rest) ← wordList fuel rest
        return (w :: ws, rest)

/-- A change of a channel, if one stands at the front. -/
def redirect? : Nat → Take (Option Redirect)
  | 0, cs => unexpected cs
  | fuel + 1, cs =>
    match textStart? cs with
    | some (n, dropsTabs, rest) => do
      let (w, rest) ← word fuel rest
      let (last, isQuoted) := literalOf w
      let (text, rest) := takeText dropsTabs last rest
      if isQuoted then return (some (.to n .text [.quoted text]), rest)
      else
        let (ps, _) ← parts .all fuel text
        return (some (.to n .text ps), rest)
    | none =>
      match redirectStart? cs with
      | some (n, kind, rest) => do
        let (w, rest) ← word fuel rest
        return (some (.to n kind w), rest)
      | none => .ok (none, cs)

def redirects : Nat → Take (List Redirect)
  | 0, cs => unexpected cs
  | fuel + 1, cs => do
    match ← redirect? fuel (skipBlanks cs) with
    | (none, _) => return ([], cs)
    | (some r, rest) =>
      let (rs, rest) ← redirects fuel rest
      return (r :: rs, rest)

/-- The settings, words and changes of channels of a simple command. -/
def simpleItems (inWords : Bool) : Nat →
    Take (List (String × Word) × List Word × List Redirect)
  | 0, cs => unexpected cs
  | fuel + 1, cs => do
    let cs := skipBlanks cs
    match ← redirect? fuel cs with
    | (some r, rest) =>
      let ((sets, ws, rs), rest) ← simpleItems inWords fuel rest
      return ((sets, ws, r :: rs), rest)
    | (none, _) =>
      match cs with
      | [] => return (([], [], []), [])
      | c :: _ =>
        if isMeta c then return (([], [], []), cs)
        else
          match if inWords then none else settingStart? cs with
          | some (name, rest) =>
            let (w, rest) ← parts .bare fuel rest
            let ((sets, ws, rs), rest) ← simpleItems false fuel rest
            return (((name, w) :: sets, ws, rs), rest)
          | none =>
            let (w, rest) ← word fuel cs
            let ((sets, ws, rs), rest) ← simpleItems true fuel rest
            return ((sets, w :: ws, rs), rest)

def simple : Nat → Take Script
  | 0, cs => unexpected cs
  | fuel + 1, cs => do
    if keywords.contains (peekWord cs) then unexpected cs
    else
      let ((sets, ws, rs), rest) ← simpleItems false fuel cs
      if sets.isEmpty && ws.isEmpty && rs.isEmpty then unexpected cs
      else
        match skipBlanks rest with
        | '(' :: behind =>
          if sets.isEmpty && rs.isEmpty && ws.length = 1 then
            let behind := skipBlanks behind
            if behind.head? = some ')' then wrong "Bad function name" behind
            else unexpected behind ")"
          else unexpected rest
        | _ => return (.simple (cs.count '\n') sets ws rs, rest)

/-- A script that is not empty, in front of a keyword or parenthesis. -/
def filledScript (closer : String) : Nat → Take Script
  | 0, cs => unexpected cs
  | fuel + 1, cs => do
    let start := skipLayout cs
    if start.isEmpty then unexpected start closer
    else if endsList start then unexpected start
    else script fuel start

/-- The branches behind the keyword of a condition. -/
def branches : Nat → Take Script
  | 0, cs => unexpected cs
  | fuel + 1, cs => do
    let (condition, rest) ← filledScript "then" fuel cs
    let rest ← keyword "then" rest
    let (yes, rest) ← filledScript "fi" fuel rest
    match keyword? "elif" rest with
    | some rest =>
      let (no, rest) ← branches fuel rest
      return (.ifThen condition yes no, rest)
    | none =>
      match keyword? "else" rest with
      | some rest =>
        let (no, rest) ← filledScript "fi" fuel rest
        return (.ifThen condition yes no, ← keyword "fi" rest)
      | none => return (.ifThen condition yes .nothing, ← keyword "fi" rest)

def body : Nat → Take Script
  | 0, cs => unexpected cs
  | fuel + 1, cs => do
    let rest ← keyword "do" cs
    let (s, rest) ← filledScript "done" fuel rest
    return (s, ← keyword "done" rest)

def forLoop : Nat → Take Script
  | 0, cs => unexpected cs
  | fuel + 1, cs => do
    let cs := skipBlanks cs
    let name := cs.takeWhile isNameChar
    let rest := cs.dropWhile isNameChar
    if !isName name then wrong "Bad for loop variable" cs
    else
      match keyword? "in" rest with
      | some rest =>
        let (ws, rest) ← wordList fuel rest
        match skipBlanks rest with
        | ';' :: ';' :: _ | [] => unexpected rest
        | c :: behind =>
          if c = ';' || c = '\n' then
            let (s, rest) ← body fuel behind
            return (.forEach (.ofList name) false ws s, rest)
          else unexpected rest
      | none =>
        let (s, rest) ← body fuel ((skipBlanks rest).dropWhile (· = ';'))
        return (.forEach (.ofList name) true [] s, rest)

/-- The patterns of a case, up to the parenthesis. -/
def patterns : Nat → Take (List Word)
  | 0, cs => unexpected cs
  | fuel + 1, cs => do
    if (skipBlanks cs).head?.all isMeta then unexpected ((skipBlanks cs).drop 1) ")" false
    else
      let (w, rest) ← word fuel cs
      match skipBlanks rest with
      | '|' :: rest =>
        let (ws, rest) ← patterns fuel rest
        return (w :: ws, rest)
      | ')' :: rest => return ([w], rest)
      | rest => unexpected rest ")" false

/-- The cases up to the keyword that ends them. -/
def cases : Nat → Take (List (List Word × Script))
  | 0, cs => unexpected cs
  | fuel + 1, cs => do
    match keyword? "esac" cs with
    | some rest => return ([], rest)
    | none =>
      let start := match skipLayout cs with
        | '(' :: rest => rest
        | rest => rest
      let (ps, rest) ← patterns fuel start
      let (s, rest) ← script fuel rest
      match skipLayout rest with
      | ';' :: ';' :: rest =>
        let (more, rest) ← cases fuel rest
        return ((ps, s) :: more, rest)
      | rest =>
        match keyword? "esac" rest with
        | some rest => return ([(ps, s)], rest)
        | none => unexpected rest ";;"

/-- A choice between cases, behind its keyword. -/
def choice : Nat → Take Script
  | 0, cs => unexpected cs
  | fuel + 1, cs => do
    let start := skipBlanks cs
    if start.head?.all isMeta then unexpected start anyWord
    let (w, rest) ← word fuel start
    let rest ← keyword "in" rest
    let (more, rest) ← cases fuel rest
    return (.choose w more, rest)

/-- A command with a keyword or parenthesis in front. -/
def compound : Nat → Take Script
  | 0, cs => unexpected cs
  | fuel + 1, cs =>
    match peekWord cs with
    | "if" => branches fuel (cs.drop 2)
    | "while" => do
      let (condition, rest) ← filledScript "do" fuel (cs.drop 5)
      let (s, rest) ← body fuel rest
      return (.loop false condition s, rest)
    | "until" => do
      let (condition, rest) ← filledScript "do" fuel (cs.drop 5)
      let (s, rest) ← body fuel rest
      return (.loop true condition s, rest)
    | "for" => forLoop fuel (cs.drop 3)
    | "case" => choice fuel (cs.drop 4)
    | "\x7b" => do
      let (s, rest) ← filledScript "\x7d" fuel (cs.drop 1)
      return (s, ← keyword "\x7d" rest)
    | _ =>
      match cs with
      | '(' :: rest => do
        match ← filledScript ")" fuel rest with
        | (s, ')' :: rest) => return (.subshell s, rest)
        | (_, rest) => unexpected rest ")"
      | cs =>
        match functionStart? cs with
        | none => unexpected cs
        | some (name, rest) => do
          let (s, rest) ← command fuel (skipLayout rest)
          return (.define name (cs.count '\n') s, rest)

def command : Nat → Take Script
  | 0, cs => unexpected cs
  | fuel + 1, cs =>
    let isCompound := peekWord cs ∈ ["if", "while", "until", "for", "case", "\x7b"] ||
      cs.head? == some '(' || (functionStart? cs).isSome
    if isCompound then do
      let (s, rest) ← compound fuel cs
      let (rs, rest) ← redirects fuel rest
      return (if rs.isEmpty then s else .redirected s rs, rest)
    else simple fuel cs

def pipeline : Nat → Take Script
  | 0, cs => unexpected cs
  | fuel + 1, cs => do
    let (s, rest) ← command fuel (skipBlanks cs)
    match skipBlanks rest with
    | '|' :: '|' :: _ => return (s, rest)
    | '|' :: rest =>
      let (more, rest) ← pipeline fuel (skipLayout rest)
      return (.pipe s more, rest)
    | _ => return (s, rest)

def negation : Nat → Take Script
  | 0, cs => unexpected cs
  | fuel + 1, cs => do
    let cs := skipBlanks cs
    if peekWord cs = "!" then
      let (s, rest) ← pipeline fuel (cs.drop 1)
      return (.negated s, rest)
    else pipeline fuel cs

/-- Pipelines that run if the one before succeeds or fails, behind those read before. -/
def andOr (before : Script) : Nat → Take Script
  | 0, cs => unexpected cs
  | fuel + 1, cs =>
    match skipBlanks cs with
    | '&' :: '&' :: rest => do
      let (s, rest) ← negation fuel (skipLayout rest)
      andOr (.andThen before s) fuel rest
    | '|' :: '|' :: rest => do
      let (s, rest) ← negation fuel (skipLayout rest)
      andOr (.orElse before s) fuel rest
    | rest => .ok (before, rest)

def script : Nat → Take Script
  | 0, cs => unexpected cs
  | fuel + 1, cs =>
    let cs := skipLayout cs
    if endsList cs then .ok (.nothing, cs)
    else do
      let (first, rest) ← negation fuel cs
      let (s, rest) ← andOr first fuel rest
      match rest with
      | ';' :: ';' :: _ => return (s, rest)
      | ';' :: rest | '\n' :: rest =>
        let (more, rest) ← script fuel rest
        return (.next s more, rest)
      | '&' :: rest =>
        let (more, rest) ← script fuel rest
        return (.next (.background s) more, rest)
      | rest => if endsList rest then return (s, rest) else unexpected rest

end

def commandLine : Nat → Take Script
  | 0, cs => unexpected cs
  | fuel + 1, cs => do
    let bound := 20 * cs.length + 100
    let (first, rest) ← negation bound cs
    let (s, rest) ← andOr first bound rest
    let goOn (s : Script) (rest : Octets) : Read (Script × Octets) :=
      match skipBlanks rest with
      | [] => .ok (s, [])
      | '\n' :: rest => .ok (s, rest)
      | rest => do
        let (more, rest) ← commandLine fuel rest
        return (.next s more, rest)
    match rest with
    | [] => return (s, [])
    | ';' :: ';' :: _ => unexpected rest
    | '\n' :: rest => return (s, rest)
    | ';' :: rest => goOn s rest
    | '&' :: rest => goOn (.background s) rest
    | rest => unexpected rest

/-- The first line of commands and what stands behind it; none if there is no command. -/
def Script.firstLine (cs : Octets) : Read (Option (Script × Octets)) :=
  match skipLayout cs with
  | [] => .ok none
  | cs => do return some (← commandLine (cs.length + 1) cs)

end Punctual.Shell
