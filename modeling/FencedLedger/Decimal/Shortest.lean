/-!
# Shortest decimals of binary floating-point numbers

A finite double stands for `m * 2 ^ q`, and every real that lies closer to it
than to its neighbours reads back as it; the two ends of that interval belong to
it when `m` is even. Its shortest decimal is the one with the fewest digits in
the interval, and of those the one nearest to the double. For each number of
digits only the two neighbours of the double on that decimal grid can be in the
interval, so the search tries one to seventeen digits in exact arithmetic.
-/

namespace FencedLedger

namespace Decimal

/-- A positive decimal: `digits * 10 ^ exponent`. -/
structure Scientific where
  /-- The digits read as a number. -/
  digits : Nat
  /-- The power of ten that they are scaled by. -/
  exponent : Int
  deriving DecidableEq, Repr

/-- A positive fraction of natural numbers. -/
structure Ratio where
  /-- The part above the bar. -/
  num : Nat
  /-- The part below the bar. -/
  den : Nat
  deriving Repr

namespace Ratio

/-- The fraction times `2 ^ q`. -/
def scaleTwo (r : Ratio) (q : Int) : Ratio :=
  if 0 ≤ q then ⟨r.num * Nat.pow 2 q.toNat, r.den⟩ else ⟨r.num, r.den * Nat.pow 2 (-q).toNat⟩

/-- The fraction times `10 ^ e`. -/
def scaleTen (r : Ratio) (e : Int) : Ratio :=
  if 0 ≤ e then ⟨r.num * Nat.pow 10 e.toNat, r.den⟩ else ⟨r.num, r.den * Nat.pow 10 (-e).toNat⟩

/-- Whether one fraction is below another. -/
def lt (r s : Ratio) : Bool := r.num * s.den < s.num * r.den

/-- The distance of two fractions. -/
def distance (r s : Ratio) : Ratio :=
  ⟨(r.num * s.den - s.num * r.den) + (s.num * r.den - r.num * s.den), r.den * s.den⟩

end Ratio

/-- The reals that read back as one double. -/
structure Interval where
  /-- The double itself. -/
  value : Ratio
  /-- The lower end. -/
  low : Ratio
  /-- The upper end. -/
  high : Ratio
  /-- Whether the ends belong to the interval. -/
  closed : Bool

/-- Whether a real reads back as the double. -/
def Interval.contains (i : Interval) (r : Ratio) : Bool :=
  if i.closed then !r.lt i.low && !i.high.lt r else i.low.lt r && r.lt i.high

/-- The interval of the positive double with the given bits. -/
def Interval.ofBits (bits : Nat) : Interval :=
  let field : Nat := bits / Nat.pow 2 52 % Nat.pow 2 11
  let fraction : Nat := bits % Nat.pow 2 52
  let m : Nat := if field = 0 then fraction else Nat.pow 2 52 + fraction
  let q : Int := if field = 0 then -1074 else (field : Int) - 1075
  let atQuarters (n : Nat) : Ratio := Ratio.scaleTwo ⟨n, 1⟩ (q - 2)
  -- Below a power of two the neighbours are twice as close.
  let below : Nat := if fraction = 0 ∧ 1 < field then 4 * m - 1 else 4 * m - 2
  { value := atQuarters (4 * m), low := atQuarters below, high := atQuarters (4 * m + 2),
    closed := m % 2 = 0 }

/-- The number of decimal digits of the whole part of a fraction that is at
least one, and minus the number of zeros behind the point of one that is not. -/
def magnitude (r : Ratio) : Int :=
  if r.den ≤ r.num then (toString (r.num / r.den)).length
  else
    -- `10 ^ k * r` is at least one for the least such `k`
    let leading := (toString (r.den / r.num)).length
    let k := if Nat.pow 10 (leading - 1) * r.num ≥ r.den then leading - 1 else leading
    1 - (k : Int)

/-- The better of the neighbours of a double on the grid of `count` digits, if
one of them reads back as it. -/
def Interval.onGrid (i : Interval) (count : Nat) : Option Scientific :=
  let e : Int := magnitude i.value - count
  let scaled := i.value.scaleTen (-e)
  let floor := scaled.num / scaled.den
  let real (n : Nat) : Ratio := Ratio.scaleTen ⟨n, 1⟩ e
  let lowHit := floor ≠ 0 && i.contains (real floor)
  let highHit := i.contains (real (floor + 1))
  if lowHit && highHit then
    let toLow := i.value.distance (real floor)
    let toHigh := i.value.distance (real (floor + 1))
    let lower := toLow.lt toHigh || (!toHigh.lt toLow && floor % 2 = 0)
    some ⟨if lower then floor else floor + 1, e⟩
  else if lowHit then some ⟨floor, e⟩
  else if highHit then some ⟨floor + 1, e⟩
  else none

/-- Move the zeros at the end of the digits into the exponent. -/
def Scientific.trim (s : Scientific) : Scientific :=
  let text := (toString s.digits).toList
  let zeros := (text.reverse.takeWhile (· == '0')).length
  if s.digits = 0 then s else ⟨s.digits / Nat.pow 10 zeros, s.exponent + zeros⟩

/-- The shortest decimal of the positive double with the given bits. -/
def shortest (bits : Nat) : Scientific :=
  let i := Interval.ofBits bits
  (((List.range 17).findSome? fun n => i.onGrid (n + 1)).getD ⟨0, 0⟩).trim

end Decimal

end FencedLedger
