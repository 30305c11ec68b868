/-!
# Blank characters

The blank characters of a text are those with the Unicode property `White_Space`. Trimming
removes them at the ends of a text and nowhere else.
-/

namespace Punctual.Text

/-- The Unicode property `White_Space`. -/
def isBlank (c : Char) : Bool :=
  let n := c.toNat
  (0x09 ≤ n && n ≤ 0x0D) || n == 0x20 || n == 0x85 || n == 0xA0 || n == 0x1680 ||
    (0x2000 ≤ n && n ≤ 0x200A) || n == 0x2028 || n == 0x2029 || n == 0x202F ||
    n == 0x205F || n == 0x3000

/-- Every blank that the core library knows is blank here. -/
theorem isBlank_of_isWhitespace {c : Char} (h : c.isWhitespace = true) : isBlank c = true := by
  simp only [Char.isWhitespace, Bool.or_eq_true, decide_eq_true_eq] at h
  rcases h with ((h | h) | h) | h <;> subst h <;> decide

/-- The characters without those at the end that satisfy `p`. -/
def dropEndWhile (p : Char → Bool) (cs : List Char) : List Char :=
  (cs.reverse.dropWhile p).reverse

/-- The text without its leading blanks. -/
def trimStart (s : String) : String :=
  .ofList (s.toList.dropWhile isBlank)

/-- The text without its trailing blanks. -/
def trimEnd (s : String) : String :=
  .ofList (dropEndWhile isBlank s.toList)

/-- The text without leading and trailing blanks. -/
def trim (s : String) : String :=
  trimEnd (trimStart s)

/-- The text holds blanks only. -/
def isBlankText (s : String) : Bool :=
  s.toList.all isBlank

end Punctual.Text
