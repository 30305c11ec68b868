import Punctual.Toml.Scalar

/-!
# Settings files

A settings file in the TOML format is a list of lines that set values by keys, under headers that
name the table they belong to. A table is defined once: a header cannot name a table again, a key
cannot be set twice, and what was defined by a value cannot be extended. `Toml.parse` gives the
data value that a file describes.
-/

namespace Punctual.Toml

open Json (Value)

/-! ## Tables in the making -/

/-- What called a table into being. -/
inductive Origin
  /-- A header below it. -/
  | implied
  /-- A header of its own. -/
  | headed
  /-- A key with several parts. -/
  | dotted
  deriving DecidableEq

/-- What stands at a key of a table in the making. -/
inductive Node
  /-- A value, which cannot be extended. -/
  | leaf (v : Value)
  | table (origin : Origin) (entries : List (String × Node))
  /-- A list of tables; the last one can be extended. -/
  | tables (items : List (List (String × Node)))

abbrev Entries := List (String × Node)

mutual

def Node.value : Node → Value
  | .leaf v => v
  | .table _ es => .object (entryValues es)
  | .tables items => .list (itemValues items)

def entryValues : List (String × Node) → List (String × Value)
  | [] => []
  | (name, n) :: es => (name, n.value) :: entryValues es

def itemValues : List (List (String × Node)) → List Value
  | [] => []
  | es :: items => .object (entryValues es) :: itemValues items

end

/-- Sets a value by a key. The table that gets the value is one that a key with several parts has
called into being, or the one that the line belongs to. -/
def define (v : Value) : List String → Entries → Option Entries
  | [], _ => none
  | [name], es => if (find? name es).isSome then none else some (es ++ [(name, .leaf v)])
  | name :: path, es =>
    match find? name es with
    | none => do return es ++ [(name, .table .dotted (← define v path []))]
    | some (.table .dotted inner) => do
      return upsert name (.table .dotted (← define v path inner)) es
    | some (.table .implied inner) => do
      if path.tail.isEmpty then none
      return upsert name (.table .implied (← define v path inner)) es
    | some (.tables items) => do
      if path.tail.isEmpty then none
      let inner ← define v path (items.getLast?.getD [])
      return upsert name (.tables (items.dropLast ++ [inner])) es
    | some _ => none

/-- Changes the entries of the table that a header has named. -/
def changeAt (change : Entries → Option Entries) : List String → Entries → Option Entries
  | [], es => change es
  | name :: path, es =>
    match find? name es with
    | none => do return es ++ [(name, .table .implied (← changeAt change path []))]
    | some (.table origin inner) => do
      return upsert name (.table origin (← changeAt change path inner)) es
    | some (.tables items) => do
      let inner ← changeAt change path (items.getLast?.getD [])
      return upsert name (.tables (items.dropLast ++ [inner])) es
    | some (.leaf _) => none

def openTable (name : String) (es : Entries) : Option Entries :=
  match find? name es with
  | none => some (es ++ [(name, .table .headed [])])
  | some (.table .implied inner) => some (upsert name (.table .headed inner) es)
  | some _ => none

/-- Names the next table of a list by a header. -/
def openItem (name : String) (es : Entries) : Option Entries :=
  match find? name es with
  | none => some (es ++ [(name, .tables [[]])])
  | some (.tables items) => some (upsert name (.tables (items ++ [[]])) es)
  | some _ => none

/-! ## Keys and values -/

/-- A character of a key without quotation marks. -/
def isKeyChar (c : Char) : Bool :=
  c.isAlphanum || c == '_' || c == '-'

def keyPart (cs : List Char) : Option (String × List Char) :=
  let bare := cs.takeWhile isKeyChar
  if bare.isEmpty then lineText cs else some (.ofList bare, cs.dropWhile isKeyChar)

/-- The parts of a key with points between them, and blanks around them. -/
def keyParts : Nat → Take (List String)
  | 0, _ => none
  | fuel + 1, cs => do
    let (part, rest) ← keyPart (skipSpaces cs)
    match skipSpaces rest with
    | '.' :: rest =>
      let (parts, rest) ← keyParts fuel rest
      return (part :: parts, rest)
    | rest => return ([part], rest)

/-- How many parts a key can have, and how deep lists and tables can be nested in a value. -/
def maxDepth : Nat := 80

def key (cs : List Char) : Option (List String × List Char) :=
  (keyParts cs.length cs).filter fun (parts, _) => parts.length ≤ maxDepth

/-- The characters behind a comment, if there is one. -/
def skipComment : List Char → Option (List Char)
  | '#' :: cs =>
    let rest := cs.dropWhile fun c => !isControl c
    match rest with
    | [] => some []
    | rest => (lineBreak? rest).map fun _ => rest
  | cs => some cs

/-- The characters behind blanks, comments and line breaks. -/
def skipLines : Nat → List Char → Option (List Char)
  | 0, cs => some cs
  | fuel + 1, cs => do
    let rest ← skipComment (skipSpaces cs)
    match lineBreak? rest with
    | some rest => skipLines fuel rest
    | none => return rest

mutual

def value (depth : Nat) : Nat → Take Value
  | 0, _ => none
  | fuel + 1, '[' :: cs => do
    if depth = 0 then none
    let (vs, rest) ← items (depth - 1) fuel cs
    return (.list vs, rest)
  | fuel + 1, '\x7b' :: cs => do
    if depth = 0 then none
    let (es, rest) ← members (depth - 1) fuel [] cs
    return (.object (entryValues es), rest)
  | _ + 1, c :: cs =>
    if c = '"' ∨ c = '\'' then (text (c :: cs)).map fun (s, rest) => (.text s, rest)
    else plain (c :: cs)
  | _ + 1, [] => none

/-- The items of a list, behind its bracket or a comma. -/
def items (depth : Nat) : Nat → Take (List Value)
  | 0, _ => none
  | fuel + 1, cs => do
    match ← skipLines cs.length cs with
    | ']' :: rest => return ([], rest)
    | start =>
      let (v, rest) ← value depth fuel start
      match ← skipLines rest.length rest with
      | ',' :: rest =>
        let (vs, rest) ← items depth fuel rest
        return (v :: vs, rest)
      | ']' :: rest => return ([v], rest)
      | _ => none

/-- The members of a table in braces, behind its brace or a comma, added to those before them. -/
def members (depth : Nat) : Nat → Entries → Take Entries
  | 0, _, _ => none
  | fuel + 1, es, cs => do
    match ← skipLines cs.length cs with
    | '\x7d' :: rest => return (es, rest)
    | start =>
      let (path, rest) ← key start
      match ← skipLines rest.length rest with
      | '=' :: rest =>
        let (v, rest) ← value depth fuel (← skipLines rest.length rest)
        let es ← define v path es
        match ← skipLines rest.length rest with
        | ',' :: rest => members depth fuel es rest
        | '\x7d' :: rest => return (es, rest)
        | _ => none
      | _ => none

end

/-! ## Lines -/

/-- A line of a file. -/
inductive Line
  | blank
  | set (path : List String) (v : Value)
  | table (path : List String)
  | item (path : List String)

/-- What stands on a line, without the comment behind it. -/
def lineContent (cs : List Char) : Option (Line × List Char) :=
  match skipSpaces cs with
  | [] => some (.blank, [])
  | '[' :: '[' :: rest => do
    match ← key rest with
    | (path, ']' :: ']' :: rest) => return (.item path, rest)
    | _ => none
  | '[' :: rest => do
    match ← key rest with
    | (path, ']' :: rest) => return (.table path, rest)
    | _ => none
  | c :: rest =>
    if c = '#' ∨ c = '\n' ∨ c = '\r' then some (.blank, c :: rest)
    else do
      match ← key (c :: rest) with
      | (path, '=' :: rest) =>
        let (v, rest) ← value maxDepth (2 * rest.length + 2) (skipSpaces rest)
        return (.set path v, rest)
      | _ => none

/-- A line, and the characters behind its break. -/
def line (cs : List Char) : Option (Line × List Char) := do
  let (l, rest) ← lineContent cs
  match ← skipComment (skipSpaces rest) with
  | [] => return (l, [])
  | rest => return (l, ← lineBreak? rest)

/-- A file in the making: the entries of its root, and the table that lines belong to. -/
structure Draft where
  root : Entries
  current : List String

def Draft.take (d : Draft) : Line → Option Draft
  | .blank => some d
  | .set path v => do return { d with root := ← changeAt (define v path) d.current d.root }
  | .table path => do
    let name ← path.getLast?
    return ⟨← changeAt (openTable name) path.dropLast d.root, path⟩
  | .item path => do
    let name ← path.getLast?
    return ⟨← changeAt (openItem name) path.dropLast d.root, path⟩

def Draft.takeAll : Nat → Draft → List Char → Option Draft
  | _, d, [] => some d
  | 0, _, _ => none
  | fuel + 1, d, cs => do
    let (l, rest) ← line cs
    Draft.takeAll fuel (← d.take l) rest

/-- The mark that may stand in front of a file. -/
def orderMark : Char := '\uFEFF'

/-- The members of the table that a file describes. -/
def parse (s : String) : Option (List (String × Value)) :=
  let cs := (behind? orderMark s.toList).getD s.toList
  (Draft.takeAll cs.length ⟨[], []⟩ cs).map fun d => entryValues d.root

end Punctual.Toml
