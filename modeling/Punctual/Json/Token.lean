import Punctual.Number.Read
import Punctual.Text.Hex

/-!
# Tokens of data texts

A data text is cut into tokens from left to right. A token that breaks off or has no valid form
ends the list, since nothing after it is ever looked at.

What is wrong with a token can depend on whether it is read as a value or only skipped: a number
too large for a floating point number, or half of a surrogate pair, spoils a value but can be
skipped. Such tokens carry the flaw that reading them meets.
-/

namespace Punctual.Json

/-- What is wrong with a text. -/
inductive Flaw
  /-- The text ends too early. -/
  | endsEarly
  /-- The text breaks the grammar. -/
  | malformed
  /-- The text has another shape than its reader expects. -/
  | wrongShape
  deriving DecidableEq, Repr

/-- A number: an integer of 64 bits with or without sign, or a floating point number. -/
inductive Number
  | int (n : Int)
  | float (x : Float)

/-- A token, or the place where the list of tokens breaks off. -/
inductive Token
  | listOpen
  | listClose
  | objectOpen
  | objectClose
  | colon
  | comma
  | null
  | bool (b : Bool)
  | number (value : Except Flaw Number)
  | text (value : Except Flaw String)
  /-- No token can be read here. Reading meets the first flaw, skipping the second. -/
  | broken (isText : Bool) (reading skipping : Flaw)

/-! ## Texts -/

/-- A text up to its closing mark: what it reads as, whether skipping reaches the mark, and what
follows. -/
structure TextScan where
  value : Except Flaw (List Char)
  skipped : Except Flaw Unit
  rest : List Char

namespace TextScan

def closed (rest : List Char) : TextScan :=
  ⟨.ok [], .ok (), rest⟩

def broken (f : Flaw) : TextScan :=
  ⟨.error f, .error f, []⟩

def push (c : Char) (s : TextScan) : TextScan :=
  { s with value := s.value.map (c :: ·) }

/-- A flaw in front of the scanned characters that skipping does not meet. -/
def spoil (f : Flaw) (s : TextScan) : TextScan :=
  { s with value := .error f }

end TextScan

def hexUnit? (a b c d : Char) : Option Nat := do
  let a ← Text.hexDigit? a
  let b ← Text.hexDigit? b
  let c ← Text.hexDigit? c
  let d ← Text.hexDigit? d
  return ((a * 16 + b) * 16 + c) * 16 + d

def isHighHalf (n : Nat) : Bool :=
  0xD800 ≤ n && n ≤ 0xDBFF

def isLowHalf (n : Nat) : Bool :=
  0xDC00 ≤ n && n ≤ 0xDFFF

def pairChar (high low : Nat) : Char :=
  .ofNat (0x10000 + (high - 0xD800) * 0x400 + (low - 0xDC00))

def escaped? : Char → Option Char
  | '"' => some '"'
  | '\\' => some '\\'
  | '/' => some '/'
  | 'b' => some '\x08'
  | 'f' => some '\x0C'
  | 'n' => some '\n'
  | 'r' => some '\r'
  | 't' => some '\t'
  | _ => none

/-- The flaw of an escape with fewer than four characters left for its digits: the digits are
counted in bytes. -/
def digitsFlaw (cs : List Char) : Flaw :=
  if cs.foldl (fun n c => n + c.utf8Size) 0 < 4 then .endsEarly else .malformed

/-- The scanned text after a first half of a surrogate pair, if one is waiting: the text does not
give the second half. -/
def TextScan.settle (high : Option Nat) (s : TextScan) : TextScan :=
  if high.isSome then s.spoil .malformed else s

/-- Scans a text after its opening mark, or after the first half `high` of a surrogate pair. -/
def scanText : Option Nat → List Char → TextScan
  | _, [] => .broken .endsEarly
  | high, c :: cs =>
    if c = '"' then (TextScan.closed cs).settle high
    else if c = '\\' then
      match cs with
      | [] => .broken .endsEarly
      | e :: cs =>
        if e = 'u' then
          match cs with
          | a :: b :: c :: d :: cs =>
            match hexUnit? a b c d with
            | none => .broken .malformed
            | some n =>
              if isLowHalf n then
                match high with
                | some h => (scanText none cs).push (pairChar h n)
                | none => (scanText none cs).spoil .malformed
              else if isHighHalf n then (scanText (some n) cs).settle high
              else ((scanText none cs).push (.ofNat n)).settle high
          | cs => .broken (digitsFlaw cs)
        else
          match escaped? e with
          | some x => ((scanText none cs).push x).settle high
          | none => .broken .malformed
    else if c.toNat < 0x20 then .broken .malformed
    else ((scanText none cs).push c).settle high

@[simp] theorem TextScan.rest_push (c : Char) (s : TextScan) : (s.push c).rest = s.rest := rfl

@[simp] theorem TextScan.rest_spoil (f : Flaw) (s : TextScan) : (s.spoil f).rest = s.rest := rfl

@[simp] theorem TextScan.rest_broken (f : Flaw) : (broken f).rest = [] := rfl

@[simp] theorem TextScan.rest_closed (cs : List Char) : (closed cs).rest = cs := rfl

@[simp] theorem TextScan.rest_settle (high : Option Nat) (s : TextScan) :
    (s.settle high).rest = s.rest := by
  unfold settle; split <;> rfl

theorem length_rest_scanText (high : Option Nat) (cs : List Char) :
    (scanText high cs).rest.length ≤ cs.length := by
  fun_induction scanText high cs <;> simp_all <;> omega

/-! ## Numbers -/

def maxMantissa : Nat := 18446744073709551615

/-- Appends digits to a mantissa while it fits; the digits that are left over are returned. -/
def absorb (mantissa : Nat) : List Char → Nat × List Char
  | [] => (mantissa, [])
  | d :: ds =>
    let next := mantissa * 10 + (d.toNat - 0x30)
    if maxMantissa < next then (mantissa, d :: ds) else absorb next ds

/-- A power of ten as the nearest floating point number. -/
def powerOfTen (n : Nat) : Float :=
  Float.ofScientific 1 false n

/-- The mantissa divided by powers of ten up to `10 ^ 308`, one after another. -/
def scaleDown : Nat → Float → Nat → Float
  | 0, x, n => x / powerOfTen (min n 308)
  | fuel + 1, x, n =>
    if n ≤ 308 then x / powerOfTen n
    else if x == 0 then x
    else scaleDown fuel (x / powerOfTen 308) (n - 308)

/-- The floating point number of a mantissa and an exponent: the mantissa is rounded first, and
each scaling is rounded again. Numbers beyond the range are malformed. -/
def scaled (negative : Bool) (mantissa : Nat) (exponent : Int) : Except Flaw Number :=
  let x := Float.ofNat mantissa
  let magnitude : Except Flaw Float :=
    if exponent < 0 then .ok (scaleDown 4 x (-exponent).toNat)
    else if 308 < exponent then (if x == 0 then .ok x else .error .malformed)
    else
      let y := x * powerOfTen exponent.toNat
      if y.isInf then .error .malformed else .ok y
  magnitude.map fun y => .float (if negative then -y else y)

/-- The largest exponent whose digits are accumulated. -/
def maxExponent : Nat := 2147483647

/-- The number of a literal: `places` and `exponent` are absent in an integer. -/
def numberOf (negative : Bool) (whole : List Char) (places : Option (List Char))
    (exponent : Option (Bool × List Char)) : Except Flaw Number :=
  let (head, dropped) := absorb 0 whole
  match places, exponent with
  | none, none =>
    if !dropped.isEmpty then scaled negative head dropped.length
    else if !negative then .ok (.int head)
    else if head = 0 ∨ 9223372036854775808 < head then .ok (.float (-(Float.ofNat head)))
    else .ok (.int (-head))
  | _, _ =>
    let ps := places.getD []
    let (mantissa, ignored) := absorb head ps
    let start : Int := dropped.length - (ps.length - ignored.length : Nat)
    match exponent with
    | none => scaled negative mantissa start
    | some (down, ds) =>
      let e := Text.natOfDigits ds
      if maxExponent < e then
        if mantissa = 0 ∨ down then .ok (.float (if negative then -0.0 else 0.0))
        else .error .malformed
      else scaled negative mantissa (if down then start - e else start + e)

/-- The flaw of a number whose digits are missing: reading tells the end of the text apart. -/
def missingDigits (cs : List Char) : Token :=
  .broken false (if cs.isEmpty then .endsEarly else .malformed) .malformed

/-- An exponent without its sign, and whether it is negative. -/
def exponentSign : List Char → Bool × List Char
  | '-' :: cs => (true, cs)
  | '+' :: cs => (false, cs)
  | cs => (false, cs)

/-- Scans the exponent of a number, if there is one. -/
def scanExponent (negative : Bool) (whole : List Char) (places : Option (List Char))
    (cs : List Char) : Token × List Char :=
  match cs with
  | [] => (.number (numberOf negative whole places none), [])
  | c :: after =>
    if c = 'e' ∨ c = 'E' then
      let (down, unsigned) := exponentSign after
      let digits := unsigned.takeWhile Char.isDigit
      if digits.isEmpty then (missingDigits unsigned, [])
      else
        (.number (numberOf negative whole places (some (down, digits))),
          unsigned.dropWhile Char.isDigit)
    else (.number (numberOf negative whole places none), c :: after)

def scanNumber (negative : Bool) (cs : List Char) : Token × List Char :=
  let whole := cs.takeWhile Char.isDigit
  let rest := cs.dropWhile Char.isDigit
  if whole.isEmpty then (missingDigits cs, [])
  else if whole.head? = some '0' ∧ 1 < whole.length then (.broken false .malformed .malformed, [])
  else
    match rest with
    | '.' :: after =>
      let places := after.takeWhile Char.isDigit
      let rest := after.dropWhile Char.isDigit
      if places.isEmpty then (missingDigits rest, [])
      else scanExponent negative whole (some places) rest
    | rest => scanExponent negative whole none rest

/-! ## The list of tokens -/

def isSpace (c : Char) : Bool :=
  c = ' ' || c = '\t' || c = '\n' || c = '\r'

def scanWord (word : List Char) (token : Token) : List Char → Token × List Char :=
  go word
where
  /-- Scans the letters of the word that are left. -/
  go : List Char → List Char → Token × List Char
    | [], cs => (token, cs)
    | _ :: _, [] => (.broken false .endsEarly .endsEarly, [])
    | w :: ws, c :: cs =>
      if w = c then go ws cs else (.broken false .malformed .malformed, [])

def punctuation? (c : Char) : Option Token :=
  if c = '[' then some .listOpen
  else if c = ']' then some .listClose
  else if c = '\x7b' then some .objectOpen
  else if c = '\x7d' then some .objectClose
  else if c = ':' then some .colon
  else if c = ',' then some .comma
  else none

def TextScan.token (s : TextScan) : Token × List Char :=
  match s.skipped with
  | .ok () => (.text (s.value.map .ofList), s.rest)
  | .error f =>
    let reading := match s.value with
      | .ok _ => f
      | .error g => g
    (.broken true reading f, [])

def scanToken (c : Char) (cs : List Char) : Token × List Char :=
  match punctuation? c with
  | some token => (token, cs)
  | none =>
    if c = '"' then (scanText none cs).token
    else if c = 'n' then scanWord ['u', 'l', 'l'] .null cs
    else if c = 't' then scanWord ['r', 'u', 'e'] (.bool true) cs
    else if c = 'f' then scanWord ['a', 'l', 's', 'e'] (.bool false) cs
    else if c = '-' then scanNumber true cs
    else if c.isDigit then scanNumber false (c :: cs)
    else (.broken false .malformed .malformed, [])

theorem length_dropWhile_le {α : Type} (p : α → Bool) (l : List α) :
    (l.dropWhile p).length ≤ l.length :=
  (List.dropWhile_sublist p).length_le

theorem length_exponentSign (cs : List Char) : (exponentSign cs).2.length ≤ cs.length := by
  unfold exponentSign
  split <;> simp

theorem length_scanExponent (negative : Bool) (whole : List Char) (places : Option (List Char))
    (cs : List Char) : (scanExponent negative whole places cs).2.length ≤ cs.length := by
  unfold scanExponent
  split
  · simp
  · next c after =>
    have h1 := length_exponentSign after
    have h2 := length_dropWhile_le Char.isDigit (exponentSign after).2
    split
    · dsimp only
      split
      · simp
      · simp only [List.length_cons]
        omega
    · simp

theorem length_scanNumber_lt (negative : Bool) {cs : List Char} (h : cs ≠ []) :
    (scanNumber negative cs).2.length < cs.length := by
  have hpos : 0 < cs.length := List.length_pos_iff.2 h
  have hsplit : (cs.takeWhile Char.isDigit).length + (cs.dropWhile Char.isDigit).length
      = cs.length := by
    rw [← List.length_append, List.takeWhile_append_dropWhile]
  unfold scanNumber
  dsimp only
  split
  · simpa using hpos
  · next hw =>
    have hw' : 0 < (cs.takeWhile Char.isDigit).length := by
      rw [List.length_pos_iff]; simpa [List.isEmpty_iff] using hw
    split
    · simpa using hpos
    · split
      · next after heq =>
        have h1 := length_dropWhile_le Char.isDigit after
        rw [heq] at hsplit
        simp only [List.length_cons] at hsplit
        split
        · simpa using hpos
        · have h2 := length_scanExponent negative (cs.takeWhile Char.isDigit)
            (some (after.takeWhile Char.isDigit)) (after.dropWhile Char.isDigit)
          omega
      · next rest _ =>
        have h2 := length_scanExponent negative (cs.takeWhile Char.isDigit) none
          (cs.dropWhile Char.isDigit)
        omega

theorem length_scanNumber (negative : Bool) (cs : List Char) :
    (scanNumber negative cs).2.length ≤ cs.length := by
  cases cs with
  | nil => simp [scanNumber, missingDigits]
  | cons c cs => exact Nat.le_of_lt (length_scanNumber_lt negative (by simp))

theorem length_scanWord (word : List Char) (token : Token) (cs : List Char) :
    (scanWord word token cs).2.length ≤ cs.length := by
  unfold scanWord
  induction word generalizing cs with
  | nil => simp [scanWord.go]
  | cons w ws ih =>
    cases cs with
    | nil => simp [scanWord.go]
    | cons c cs =>
      simp only [scanWord.go]
      split
      · have := ih cs; simp; omega
      · simp

theorem TextScan.length_token (s : TextScan) : s.token.2.length ≤ s.rest.length := by
  unfold token
  split <;> simp

/-- Scanning a token takes at least its first character. -/
theorem length_scanToken (c : Char) (cs : List Char) :
    (scanToken c cs).2.length ≤ cs.length := by
  unfold scanToken
  split
  · exact Nat.le_refl _
  · split
    · exact Nat.le_trans (TextScan.length_token _) (length_rest_scanText none cs)
    · split
      · exact length_scanWord ..
      · split
        · exact length_scanWord ..
        · split
          · exact length_scanWord ..
          · split
            · exact length_scanNumber ..
            · split
              · have : (scanNumber false (c :: cs)).2.length < (c :: cs).length :=
                  length_scanNumber_lt false (by simp)
                simp only [List.length_cons] at this
                omega
              · simp

/-- The tokens of a text, up to the first place where none can be read. -/
def tokens : List Char → List Token
  | [] => []
  | c :: cs =>
    if isSpace c then tokens cs
    else
      match (scanToken c cs).1 with
      | .broken isText reading skipping => [.broken isText reading skipping]
      | token => token :: tokens (scanToken c cs).2
termination_by cs => cs.length
decreasing_by
  · simp
  · have := length_scanToken c cs
    simp only [List.length_cons]
    omega

end Punctual.Json
