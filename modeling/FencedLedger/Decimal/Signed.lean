/-!
# Signed decimal words

Reading a 64-bit signed number from decimal text. An optional sign is followed
by at least one digit. Characters are taken from the left, and the first one
that cannot continue the number decides the error: a character that is no digit,
or a digit that takes the number out of range.
-/

namespace FencedLedger

namespace Decimal

/-- Why a text is not a 64-bit signed number. -/
inductive IntegerError where
  /-- There is no character. -/
  | empty
  /-- A character stands where a digit is needed. -/
  | invalidDigit
  /-- The number exceeds the greatest one. -/
  | tooLarge
  /-- The number is below the least one. -/
  | tooSmall
  deriving DecidableEq, Repr

/-- The words for a reading error. -/
def IntegerError.message : IntegerError → String
  | .empty => "cannot parse integer from empty string"
  | .invalidDigit => "invalid digit found in string"
  | .tooLarge => "number too large to fit in target type"
  | .tooSmall => "number too small to fit in target type"

/-- The value of a decimal digit. -/
def digit? (c : Char) : Option Nat :=
  if '0' ≤ c ∧ c ≤ '9' then some (c.toNat - 48) else none

/-- The greatest absolute value of a number with the given sign. -/
def magnitudeBound (negative : Bool) : Nat :=
  if negative then Nat.pow 2 63 else Nat.pow 2 63 - 1

/-- Read digits behind the number `read`, whose absolute value may not pass the
bound of its sign. -/
def readMagnitude (negative : Bool) (read : Nat) : List Char → Except IntegerError Nat
  | [] => .ok read
  | c :: rest =>
      match digit? c with
      | none => .error .invalidDigit
      | some d =>
          if 10 * read + d ≤ magnitudeBound negative then
            readMagnitude negative (10 * read + d) rest
          else .error (if negative then .tooSmall else .tooLarge)

/-- The number with the given sign and absolute value. -/
def signed (negative : Bool) (magnitude : Nat) : Int64 :=
  Int64.ofInt (if negative then -(magnitude : Int) else magnitude)

/-- Read a signed number that makes up the whole text. -/
def readInt64 (text : List Char) : Except IntegerError Int64 :=
  match text with
  | [] => .error .empty
  | ['+'] | ['-'] => .error .invalidDigit
  | '+' :: digits => (readMagnitude false 0 digits).map (signed false)
  | '-' :: digits => (readMagnitude true 0 digits).map (signed true)
  | digits => (readMagnitude false 0 digits).map (signed false)

/-- The decimal text of a signed number. -/
def showInt64 (x : Int64) : String := toString x.toInt

end Decimal

end FencedLedger
