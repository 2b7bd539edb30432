import FencedLedger.Text.Unprintable

/-!
# Quoted text

A text in double quotes as error messages show it. Quotes and backslashes are
escaped, the common controls have their short escapes, and a character that is
not shown as itself is shown by its number in hexadecimal.
-/

namespace FencedLedger

namespace Text

/-- Whether a character is shown by its number. -/
def isUnprintable (c : Char) : Bool :=
  let n := c.toNat
  if n < 0x80 then n < 0x20 || n == 0x7F
  else unprintableRanges.any fun r => r.1 ≤ n && n ≤ r.2

/-- A number in hexadecimal. -/
def hexText (n : Nat) : String := String.ofList (Nat.toDigits 16 n)

/-- A character as it stands between quotes. -/
def quotedChar (c : Char) : String :=
  if c = '\x00' then "\\0"
  else if c = '\t' then "\\t"
  else if c = '\r' then "\\r"
  else if c = '\n' then "\\n"
  else if c = '"' then "\\\""
  else if c = '\\' then "\\\\"
  else if isUnprintable c then "\\u\x7b" ++ hexText c.toNat ++ "\x7d"
  else String.singleton c

/-- A text in double quotes. -/
def quoted (text : String) : String :=
  "\"" ++ String.join (text.toList.map quotedChar) ++ "\""

end Text

end FencedLedger
