import Punctual.Shell.Tool.Column
import Punctual.Shell.Tool.Compare
import Punctual.Shell.Tool.Copy
import Punctual.Shell.Tool.Count
import Punctual.Shell.Tool.Differ
import Punctual.Shell.Tool.Dump
import Punctual.Shell.Tool.Files
import Punctual.Shell.Tool.Order
import Punctual.Shell.Tool.Print
import Punctual.Shell.Tool.Search
import Punctual.Shell.Tool.Translate

/-!
# Tools

The programs besides the command interpreter itself, by their names.
-/

namespace Punctual.Shell.Tool

/-- The nanoseconds of a time that a word gives in seconds, minutes, hours or days. -/
def nanosOf? (cs : Octets) : Option Nat :=
  let (digits, unit) := match cs.reverse with
    | 's' :: ds => (ds.reverse, 1)
    | 'm' :: ds => (ds.reverse, 60)
    | 'h' :: ds => (ds.reverse, 3600)
    | 'd' :: ds => (ds.reverse, 86400)
    | ds => (ds.reverse, 1)
  match Decimal.leading digits with
  | (d, []) =>
    if digits.any Char.isDigit && !(digits.head? == some '-') then
      some (d.digits.toNat * unit * 1000000000 / Nat.pow 10 d.places)
    else none
  | _ => none

def sleep : Tool := withOptions "sleep" { flags := "" } fun call => do
  match call.operands, call.operands.filter fun a => (nanosOf? a).isNone with
  | [], _ => decline "sleep" "missing operand"
  | words, [] =>
    let times := words.filterMap nanosOf?
    Act.pass (times.foldl (· + ·) 0)
    return 0
  | _, wrong => do
    for word in wrong do
      Act.complain ("sleep: invalid time interval " ++ shown word)
    Act.complain "Try 'sleep --help' for more information."
    return 1

def always (status : Nat) : Tool := fun _ => return status

def printenv : Tool := withOptions "printenv" { flags := "0" } fun call => do
  let m ← get
  let given := m.values.filter fun (n, _) => m.exported.contains n
  let byZeros := call.has '0'
  if call.operands.isEmpty then
    Act.write (unrecords byZeros (given.map fun (n, v) => Octets.ofText n ++ ['='] ++ v))
  else
    let found := call.operands.filterMap fun n => find? (Octets.toText n) given
    finishing (if found.length = call.operands.length then 0 else 1) (unrecords byZeros found)

def uname : Tool := withOptions "uname" { flags := "s" } fun _ => Act.write "Linux\n".toList

/-- A tool that goes on with its work while input comes. -/
def onFlow (tool : Tool) : Tool := fun args => Act.streaming (tool args)

def byName? (name : String) : Option Tool :=
  match name with
  | "cat" => some cat
  | "head" => some head
  | "tail" => some tail
  | "tee" => some (onFlow tee)
  | "dd" => some dd
  | "tac" => some tac
  | "rev" => some (onFlow rev)
  | "sort" => some sort
  | "uniq" => some (onFlow uniq)
  | "comm" => some comm
  | "join" => some join
  | "cut" => some (onFlow cut)
  | "paste" => some (onFlow paste)
  | "nl" => some (onFlow nl)
  | "fold" => some (onFlow fold)
  | "expand" => some (onFlow expand)
  | "wc" => some wc
  | "md5sum" => some md5sum
  | "sha1sum" => some sha1sum
  | "sha256sum" => some sha256sum
  | "cksum" => some cksum
  | "od" => some (onFlow od)
  | "base64" => some (onFlow base64)
  | "cmp" => some cmp
  | "diff" => some diff
  | "tr" => some (onFlow tr)
  | "grep" => some grep
  | "egrep" => some fun args => grep (['-', 'E'] :: args)
  | "fgrep" => some fun args => grep (['-', 'F'] :: args)
  | "sed" => some sed
  | "echo" => some echo
  | "printf" => some printf
  | "seq" => some seq
  | "yes" => some yes
  | "basename" => some basename
  | "dirname" => some dirname
  | "test" => some test
  | "[" => some bracket
  | "expr" => some expr
  | "sleep" => some sleep
  | "true" => some (always 0)
  | "false" => some (always 1)
  | "printenv" => some printenv
  | "uname" => some uname
  | "touch" => some touch
  | "mkdir" => some mkdir
  | "rmdir" => some rmdir
  | "rm" => some rm
  | "chmod" => some chmod
  | "cp" => some cp
  | "mv" => some mv
  | "truncate" => some truncate
  | "ls" => some ls
  | _ => none

end Punctual.Shell.Tool
