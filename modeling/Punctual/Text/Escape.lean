import Punctual.Text.Hidden

/-!
# Escaped text

A text in a diagnostic stands between quotation marks, and every character that would not show as
itself is escaped: marks and backslashes, line breaks and tabs, and all characters without a
visible form of their own by their code point in braces.
-/

namespace Punctual.Text

/-- A number in lower case hexadecimal digits. -/
def hex (n : Nat) : String :=
  .ofList (Nat.toDigits 16 n)

/-- A character inside quotation marks. -/
def escapeChar (c : Char) : String :=
  if c = '"' then "\\\""
  else if c = '\\' then "\\\\"
  else if c = '\n' then "\\n"
  else if c = '\t' then "\\t"
  else if c = '\r' then "\\r"
  else if c = '\x00' then "\\0"
  else if isHidden c then "\\u\x7b" ++ hex c.toNat ++ "\x7d"
  else c.toString

/-- The text in quotation marks. -/
def quoted (s : String) : String :=
  "\"" ++ String.join (s.toList.map escapeChar) ++ "\""

end Punctual.Text
