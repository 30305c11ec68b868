import Punctual.Shell.Octets

/-!
# Digests

A digest of some octets is a short number that other octets hardly share. The octets are filled up
to blocks, which are worked into a state of words one after another.
-/

namespace Punctual.Shell.Digest

/-! ## Blocks -/

/-- The word of some octets, the lowest one first. -/
def wordUp (bs : List UInt8) : UInt32 :=
  bs.foldr (fun b w => w * 256 + b.toUInt32) 0

/-- The word of some octets, the highest one first. -/
def wordDown (bs : List UInt8) : UInt32 :=
  bs.foldl (fun w b => w * 256 + b.toUInt32) 0

/-- The lowest octets of a number, as many as wanted, the lowest one first. -/
def octetsUp : Nat → Nat → List UInt8
  | 0, _ => []
  | k + 1, n => n.toUInt8 :: octetsUp k (n / 256)

def pieces {α : Type} (size : Nat) : Nat → List α → List (List α)
  | 0, _ => []
  | _, [] => []
  | fuel + 1, xs => xs.take size :: pieces size fuel (xs.drop size)

/-- Octets filled up to blocks of 64: a mark, zeros, and the length in bits. -/
def filled (length : Nat → List UInt8) (bs : List UInt8) : List (List UInt8) :=
  let zeros := (119 - bs.length % 64) % 64
  let all := bs ++ 0x80 :: List.replicate zeros 0 ++ length (8 * bs.length)
  pieces 64 all.length all

def blockWords (word : List UInt8 → UInt32) (block : List UInt8) : Array UInt32 :=
  ((pieces 4 16 block).map word).toArray

def turnLeft (w : UInt32) (n : UInt32) : UInt32 :=
  (w <<< n) ||| (w >>> (32 - n))

def turnRight (w : UInt32) (n : UInt32) : UInt32 :=
  turnLeft w (32 - n)

def hex (bs : List UInt8) : Octets :=
  bs.flatMap fun b => [Nat.digitChar (b.toNat / 16), Nat.digitChar (b.toNat % 16)]

/-- The octets of a state, those of a word the highest first. -/
def stateDown (ws : List UInt32) : List UInt8 :=
  ws.flatMap fun w => (octetsUp 4 w.toNat).reverse

/-! ## The digest of 128 bits -/

/-- How far words are turned in the steps of a block. -/
def turns128 : Array UInt32 :=
  let row (ns : List UInt32) : List UInt32 := (List.replicate 4 ns).flatten
  (row [7, 12, 17, 22] ++ row [5, 9, 14, 20] ++ row [4, 11, 16, 23] ++ row [6, 10, 15, 21]).toArray

/-- What is added in the steps of a block: the parts behind the point of the sines of 1 to 64. -/
def addends128 : Array UInt32 := #[
  0xd76aa478, 0xe8c7b756, 0x242070db, 0xc1bdceee, 0xf57c0faf, 0x4787c62a, 0xa8304613, 0xfd469501,
  0x698098d8, 0x8b44f7af, 0xffff5bb1, 0x895cd7be, 0x6b901122, 0xfd987193, 0xa679438e, 0x49b40821,
  0xf61e2562, 0xc040b340, 0x265e5a51, 0xe9b6c7aa, 0xd62f105d, 0x02441453, 0xd8a1e681, 0xe7d3fbc8,
  0x21e1cde6, 0xc33707d6, 0xf4d50d87, 0x455a14ed, 0xa9e3e905, 0xfcefa3f8, 0x676f02d9, 0x8d2a4c8a,
  0xfffa3942, 0x8771f681, 0x6d9d6122, 0xfde5380c, 0xa4beea44, 0x4bdecfa9, 0xf6bb4b60, 0xbebfbc70,
  0x289b7ec6, 0xeaa127fa, 0xd4ef3085, 0x04881d05, 0xd9d4d039, 0xe6db99e5, 0x1fa27cf8, 0xc4ac5665,
  0xf4292244, 0x432aff97, 0xab9423a7, 0xfc93a039, 0x655b59c3, 0x8f0ccc92, 0xffeff47d, 0x85845dd1,
  0x6fa87e4f, 0xfe2ce6e0, 0xa3014314, 0x4e0811a1, 0xf7537e82, 0xbd3af235, 0x2ad7d2bb, 0xeb86d391]

def step128 (words : Array UInt32) (s : UInt32 × UInt32 × UInt32 × UInt32) (i : Nat) :
    UInt32 × UInt32 × UInt32 × UInt32 :=
  let (a, b, c, d) := s
  let (f, g) :=
    if i < 16 then ((b &&& c) ||| (~~~b &&& d), i)
    else if i < 32 then ((d &&& b) ||| (~~~d &&& c), (5 * i + 1) % 16)
    else if i < 48 then (b ^^^ c ^^^ d, (3 * i + 5) % 16)
    else (c ^^^ (b ||| ~~~d), 7 * i % 16)
  let sum := a + f + addends128.getD i 0 + words.getD g 0
  (d, b + turnLeft sum (turns128.getD i 0), b, c)

def digest128 (bs : List UInt8) : List UInt8 :=
  let blocks := filled (octetsUp 8) bs
  let start : UInt32 × UInt32 × UInt32 × UInt32 := (0x67452301, 0xefcdab89, 0x98badcfe, 0x10325476)
  let (a, b, c, d) := blocks.foldl (fun s block =>
    let (a, b, c, d) := s
    let (a', b', c', d') := (List.range 64).foldl (step128 (blockWords wordUp block)) s
    (a + a', b + b', c + c', d + d')) start
  [a, b, c, d].flatMap fun w => octetsUp 4 w.toNat

/-! ## The digest of 160 bits -/

/-- The words of a block and those that are made of them, 80 in all. -/
def schedule160 (block : List UInt8) : Array UInt32 :=
  (List.range 64).foldl (fun ws i =>
    let w (k : Nat) := ws.getD (i + 16 - k) 0
    ws.push (turnLeft (w 3 ^^^ w 8 ^^^ w 14 ^^^ w 16) 1)) (blockWords wordDown block)

/-- A state of five words. -/
structure State160 where
  a : UInt32
  b : UInt32
  c : UInt32
  d : UInt32
  e : UInt32

def step160 (ws : Array UInt32) (s : State160) (i : Nat) : State160 :=
  let (f, k) :=
    if i < 20 then ((s.b &&& s.c) ||| (~~~s.b &&& s.d), (0x5a827999 : UInt32))
    else if i < 40 then (s.b ^^^ s.c ^^^ s.d, 0x6ed9eba1)
    else if i < 60 then ((s.b &&& s.c) ||| (s.b &&& s.d) ||| (s.c &&& s.d), 0x8f1bbcdc)
    else (s.b ^^^ s.c ^^^ s.d, 0xca62c1d6)
  ⟨turnLeft s.a 5 + f + s.e + k + ws.getD i 0, s.a, turnLeft s.b 30, s.c, s.d⟩

def digest160 (bs : List UInt8) : List UInt8 :=
  let blocks := filled (fun n => (octetsUp 8 n).reverse) bs
  let start : State160 := ⟨0x67452301, 0xefcdab89, 0x98badcfe, 0x10325476, 0xc3d2e1f0⟩
  let s := blocks.foldl (fun s block =>
    let t := (List.range 80).foldl (step160 (schedule160 block)) s
    ⟨s.a + t.a, s.b + t.b, s.c + t.c, s.d + t.d, s.e + t.e⟩) start
  stateDown [s.a, s.b, s.c, s.d, s.e]

/-! ## The digest of 256 bits -/

/-- What is added in the steps of a block: the parts behind the point of the cube roots of the first
primes. -/
def addends256 : Array UInt32 := #[
  0x428a2f98, 0x71374491, 0xb5c0fbcf, 0xe9b5dba5, 0x3956c25b, 0x59f111f1, 0x923f82a4, 0xab1c5ed5,
  0xd807aa98, 0x12835b01, 0x243185be, 0x550c7dc3, 0x72be5d74, 0x80deb1fe, 0x9bdc06a7, 0xc19bf174,
  0xe49b69c1, 0xefbe4786, 0x0fc19dc6, 0x240ca1cc, 0x2de92c6f, 0x4a7484aa, 0x5cb0a9dc, 0x76f988da,
  0x983e5152, 0xa831c66d, 0xb00327c8, 0xbf597fc7, 0xc6e00bf3, 0xd5a79147, 0x06ca6351, 0x14292967,
  0x27b70a85, 0x2e1b2138, 0x4d2c6dfc, 0x53380d13, 0x650a7354, 0x766a0abb, 0x81c2c92e, 0x92722c85,
  0xa2bfe8a1, 0xa81a664b, 0xc24b8b70, 0xc76c51a3, 0xd192e819, 0xd6990624, 0xf40e3585, 0x106aa070,
  0x19a4c116, 0x1e376c08, 0x2748774c, 0x34b0bcb5, 0x391c0cb3, 0x4ed8aa4a, 0x5b9cca4f, 0x682e6ff3,
  0x748f82ee, 0x78a5636f, 0x84c87814, 0x8cc70208, 0x90befffa, 0xa4506ceb, 0xbef9a3f7, 0xc67178f2]

/-- The words of a block and those that are made of them, 64 in all. -/
def schedule256 (block : List UInt8) : Array UInt32 :=
  (List.range 48).foldl (fun ws i =>
    let w (k : Nat) := ws.getD (i + 16 - k) 0
    let s0 := turnRight (w 15) 7 ^^^ turnRight (w 15) 18 ^^^ (w 15 >>> 3)
    let s1 := turnRight (w 2) 17 ^^^ turnRight (w 2) 19 ^^^ (w 2 >>> 10)
    ws.push (w 16 + s0 + w 7 + s1)) (blockWords wordDown block)

/-- A step of a block on a state of eight words. -/
def step256 (ws : Array UInt32) (s : List UInt32) (i : Nat) : List UInt32 :=
  match s with
  | [a, b, c, d, e, f, g, h] =>
    let s1 := turnRight e 6 ^^^ turnRight e 11 ^^^ turnRight e 25
    let t1 := h + s1 + ((e &&& f) ^^^ (~~~e &&& g)) + addends256.getD i 0 + ws.getD i 0
    let s0 := turnRight a 2 ^^^ turnRight a 13 ^^^ turnRight a 22
    let t2 := s0 + ((a &&& b) ^^^ (a &&& c) ^^^ (b &&& c))
    [t1 + t2, a, b, c, d + t1, e, f, g]
  | s => s

def digest256 (bs : List UInt8) : List UInt8 :=
  let blocks := filled (fun n => (octetsUp 8 n).reverse) bs
  let start : List UInt32 := [0x6a09e667, 0xbb67ae85, 0x3c6ef372, 0xa54ff53a, 0x510e527f,
    0x9b05688c, 0x1f83d9ab, 0x5be0cd19]
  stateDown (blocks.foldl (fun s block =>
    List.zipWith (· + ·) s ((List.range 64).foldl (step256 (schedule256 block)) s)) start)

/-! ## The remainder of 32 bits -/

/-- The remainder with one more octet, by the polynomial of the check. -/
def addOctet (r : UInt32) (b : UInt8) : UInt32 :=
  (List.range 8).foldl (fun r _ =>
    if r &&& 0x80000000 = 0 then r <<< 1 else (r <<< 1) ^^^ 0x04c11db7)
    (r ^^^ (b.toUInt32 <<< 24))

/-- The octets of a number without the zeros at its end, the lowest one first. -/
def lengthOctets : Nat → Nat → List UInt8
  | 0, _ => []
  | fuel + 1, n => if n = 0 then [] else n.toUInt8 :: lengthOctets fuel (n / 256)

def check32 (bs : List UInt8) : UInt32 :=
  ~~~((bs ++ lengthOctets 8 bs.length).foldl addOctet 0)

end Punctual.Shell.Digest
