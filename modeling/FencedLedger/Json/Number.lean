import FencedLedger.Decimal.Shortest
import FencedLedger.Decimal.Signed

/-!
# Numbers in JSON text

A number without fraction and exponent is an integer while it fits a 64-bit
word: an unsigned one, or a signed one behind a minus sign. Every other number
is a double, and so is `-0`. Digits of a double beyond the first that do not fit
an unsigned word are dropped, and the double is the kept digits times or over a
power of ten.
-/

namespace FencedLedger

namespace Json

/-- A number as text spells it. -/
inductive Number where
  /-- A number that fits a word. -/
  | integer (n : Int)
  /-- A double. -/
  | double (x : Float)

namespace Number

/-- Read digits into a significand while it fits an unsigned word. Answers the
significand, how many digits it took, and what follows. -/
def absorb (significand count : Nat) : List Char → Nat × Nat × List Char
  | [] => (significand, count, [])
  | c :: rest =>
      match Decimal.digit? c with
      | none => (significand, count, c :: rest)
      | some d =>
          if 10 * significand + d < UInt64.size then absorb (10 * significand + d) (count + 1) rest
          else (significand, count, c :: rest)

/-- Pass over digits and count them. -/
def passDigits (count : Nat) : List Char → Nat × List Char
  | [] => (count, [])
  | c :: rest =>
      if (Decimal.digit? c).isSome then passDigits (count + 1) rest else (count, c :: rest)

/-- A power of ten as a double. -/
def tenTo (n : Nat) : Float := Float.ofScientific 1 false n

/-- A double over a power of ten, in steps within the range of doubles. -/
def overTenTo (x : Float) (power : Nat) : Float :=
  if power ≤ 308 then x / tenTo power
  else if x == 0 then x
  else overTenTo (x / tenTo 308) (power - 308)
termination_by power

/-- A significand times a power of ten, unless that is no double. -/
def scaled? (significand : Nat) (exponent : Int) : Option Float :=
  let x := (UInt64.ofNat significand).toFloat
  if exponent < 0 then some (overTenTo x (-exponent).toNat)
  else if exponent ≤ 308 then
    let y := x * tenTo exponent.toNat
    if y.isInf then none else some y
  else if significand = 0 then some x
  else none

/-- Read an exponent from behind its mark. -/
def readExponent (significand : Nat) (start : Int) (text : List Char) :
    Option (Float × List Char) :=
  let (negative, digits) := match text with
    | '+' :: rest => (false, rest)
    | '-' :: rest => (true, rest)
    | rest => (false, rest)
  let (count, rest) := passDigits 0 digits
  if count = 0 then none
  else
    let power : Nat := (digits.take count).foldl (fun n c => 10 * n + (c.toNat - 48)) 0
    if power < Nat.pow 2 31 then
      (scaled? significand (if negative then start - power else start + power)).map (·, rest)
    else if significand ≠ 0 ∧ !negative then none
    else some (0, rest)

/-- Read what may follow the digits of a double: an exponent. -/
def readScale (significand : Nat) (start : Int) (text : List Char) :
    Option (Float × List Char) :=
  match text with
  | 'e' :: rest | 'E' :: rest => readExponent significand start rest
  | rest => (scaled? significand start).map (·, rest)

/-- Read a fraction from behind its point. -/
def readFraction (significand : Nat) (start : Int) (text : List Char) :
    Option (Float × List Char) :=
  let (significand, count, rest) := absorb significand 0 text
  let (dropped, rest) := passDigits 0 rest
  if count + dropped = 0 then none else readScale significand (start - count) rest

/-- Read what follows the digits of a whole part, of which `dropped` do not
count towards the significand. -/
def readTail (negative : Bool) (significand dropped : Nat) (text : List Char) :
    Option (Number × List Char) :=
  let double (r : Float × List Char) : Number × List Char :=
    (.double (if negative then -r.1 else r.1), r.2)
  match text with
  | '.' :: rest => (readFraction significand dropped rest).map double
  | 'e' :: rest | 'E' :: rest => (readExponent significand dropped rest).map double
  | rest =>
      if dropped ≠ 0 then ((scaled? significand dropped).map (·, rest)).map double
      else if !negative then some (.integer significand, rest)
      else if significand = 0 ∨ Nat.pow 2 63 < significand then
        some (.double (-(UInt64.ofNat significand).toFloat), rest)
      else some (.integer (-significand), rest)

/-- Read a number from behind its sign. -/
def read? (negative : Bool) (text : List Char) : Option (Number × List Char) :=
  match text with
  | [] => none
  | '0' :: rest =>
      match rest with
      | c :: _ => if (Decimal.digit? c).isSome then none else readTail negative 0 0 rest
      | [] => readTail negative 0 0 rest
  | c :: rest =>
      match Decimal.digit? c with
      | none => none
      | some d =>
          let (significand, _, rest) := absorb d 0 rest
          let (dropped, rest) := passDigits 0 rest
          readTail negative significand dropped rest

/-! ### The text of doubles -/

/-- A decimal with a point: positional while the point falls within sixteen
digits or at most five places before the first one, and scientific beyond, with
the sign of the exponent. -/
def positional (s : Decimal.Scientific) : String :=
  let digits := toString s.digits
  let zeros (n : Nat) : String := String.ofList (List.replicate n '0')
  let point : Int := digits.length + s.exponent
  if 0 ≤ s.exponent ∧ point ≤ 16 then digits ++ zeros s.exponent.toNat ++ ".0"
  else if 0 < point ∧ point ≤ 16 then
    let whole := digits.toList.take point.toNat
    let part := digits.toList.drop point.toNat
    String.ofList (whole ++ '.' :: part)
  else if -5 < point ∧ point ≤ 0 then "0." ++ zeros (-point).toNat ++ digits
  else
    let power := (if 0 < point then "+" else "") ++ toString (point - 1)
    match digits.toList with
    | [d] => String.ofList [d] ++ "e" ++ power
    | d :: part => String.ofList (d :: '.' :: part) ++ "e" ++ power
    | [] => "0.0"

/-- The text of a finite double. -/
def doubleText (x : Float) : String :=
  let bits := x.toBits.toNat
  let sign := if Nat.pow 2 63 ≤ bits then "-" else ""
  let size := bits % Nat.pow 2 63
  sign ++ (if size = 0 then "0.0" else positional (Decimal.shortest size))

end Number

end Json

end FencedLedger
