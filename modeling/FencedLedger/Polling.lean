/-!
# Waiting for a condition

A condition is looked at again and again until it holds or the time is up, and
once more then. Looks are numbered from one.
-/

namespace FencedLedger

namespace Polling

/-- How a wait ended. -/
structure Report where
  /-- Whether the condition held at the last look. -/
  held : Bool
  /-- The number of looks. -/
  looks : Nat
  deriving DecidableEq, Repr

/-- Look up to `rounds` times before the time is up, and once more then, after
`made` looks. -/
def waitFrom (condition : Nat → Bool) (made : Nat) : (rounds : Nat) → Report
  | 0 => ⟨condition (made + 1), made + 1⟩
  | rounds + 1 =>
      if condition (made + 1) then ⟨true, made + 1⟩
      else waitFrom condition (made + 1) rounds

/-- Wait for a condition for which there is time for so many looks. -/
def wait (condition : Nat → Bool) (rounds : Nat) : Report := waitFrom condition 0 rounds

/-- The looks that there is time for, one every ten milliseconds. -/
def rounds (milliseconds : Nat) : Nat := (milliseconds + 9) / 10

end Polling

end FencedLedger
