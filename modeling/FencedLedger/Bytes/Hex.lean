import FencedLedger.Bytes.BigEndian

/-!
# Hexadecimal text of bytes

Two digits a byte, high digit first. Writing uses lower-case digits, reading
takes either case and refuses an odd number of digits.
-/

namespace FencedLedger

namespace Hex

/-- The lower-case digit of a value below sixteen. -/
def digit (n : Nat) : Char :=
  if n < 10 then Char.ofNat (48 + n) else Char.ofNat (87 + n)

/-- The value of a digit of either case. -/
def value? (c : Char) : Option Nat :=
  if '0' ≤ c ∧ c ≤ '9' then some (c.toNat - 48)
  else if 'a' ≤ c ∧ c ≤ 'f' then some (c.toNat - 87)
  else if 'A' ≤ c ∧ c ≤ 'F' then some (c.toNat - 55)
  else none

/-- The digits of a byte string. -/
def encode (bs : Bytes) : String :=
  String.ofList (bs.flatMap fun b => [digit (b.toNat / 16), digit (b.toNat % 16)])

/-- The byte string with the given digits. -/
def decode? : List Char → Option Bytes
  | [] => some []
  | [_] => none
  | h :: l :: rest =>
      match value? h, value? l, decode? rest with
      | some hi, some lo, some bs => some (UInt8.ofNat (16 * hi + lo) :: bs)
      | _, _, _ => none

end Hex

end FencedLedger
