import FencedLedger.Decimal.Signed
import FencedLedger.Duration.Unit

/-!
# The written form of durations

A duration is written as amounts with units, largest first: `1year 2months 5s`.
Reading accepts more than that. Amounts may have a fraction, blanks may stand
between digits and between an amount and its unit, units need no blank before
the next amount, may come in any order and more than once, and add up.

Reading goes from left to right over one character at a time. `Scan` is what is
known after some characters: the sum of the amounts read, the byte offset
reached, and the phase of the amount being read. The first character that no
phase can take decides the error.
-/

namespace FencedLedger

namespace Duration

/-- Why a text is not a duration. -/
inductive ReadError where
  /-- There is nothing but blanks. -/
  | empty
  /-- The amount due at the offset does not start with a digit. -/
  | numberExpected (offset : Nat)
  /-- The character at the offset fits nowhere. -/
  | invalidCharacter (offset : Nat)
  /-- The amount has no unit. -/
  | unitNeeded (amount : Nat)
  /-- There is no unit of this name. -/
  | unknownUnit (name : String)
  /-- A number exceeds its word, or a fraction is no whole number of its scale. -/
  | overflow
  deriving DecidableEq, Repr

/-- The words for a reading error. -/
def ReadError.message : ReadError → String
  | .empty => "value was empty"
  | .numberExpected offset => s!"expected number at {offset}"
  | .invalidCharacter offset => s!"invalid character at {offset}"
  | .unitNeeded amount => s!"time unit needed, for example {amount}sec or {amount}ms"
  | .unknownUnit name =>
      "unknown time unit \"" ++ name ++ "\", supported units: " ++
        "ns, us/µs, ms, sec, min, hours, days, weeks, months, years (and few variations)"
  | .overflow =>
      "number is too large or cannot be represented without a lack of precision " ++
        "(values below 1ns are not supported)"

/-! ### Characters -/

/-- Whether the character is blank: the white space of Unicode. -/
def isBlank (c : Char) : Bool :=
  let n := c.toNat
  (9 ≤ n && n ≤ 13) || n == 0x20 || n == 0x85 || n == 0xA0 || n == 0x1680 ||
    (0x2000 ≤ n && n ≤ 0x200A) || n == 0x2028 || n == 0x2029 || n == 0x202F ||
    n == 0x205F || n == 0x3000

/-- Whether the character may stand in the name of a unit. -/
def isUnitLetter (c : Char) : Bool :=
  ('a' ≤ c && c ≤ 'z') || ('A' ≤ c && c ≤ 'Z') || c == 'µ'

/-! ### Amounts -/

/-- The number, if it fits an unsigned 64-bit word. -/
def word (n : Nat) : Except ReadError Nat :=
  if n < UInt64.size then .ok n else .error .overflow

/-- The digits of a fraction, as a number and as the power of ten it is over. -/
structure Fraction where
  /-- The digits read as a number. -/
  numerator : Nat
  /-- Ten to the number of digits. -/
  denominator : Nat
  deriving DecidableEq, Repr

/-- The fraction behind a point that no digit follows yet. -/
def Fraction.none : Fraction := ⟨0, 1⟩

/-- The fraction with one more digit. -/
def Fraction.push (f : Fraction) (d : Nat) : Except ReadError Fraction := do
  let denominator ← word (10 * f.denominator)
  let numerator ← word (10 * f.numerator + d)
  return ⟨numerator, denominator⟩

/-- The part of `n` over the denominator that is a whole number. -/
def quotient (n denominator : Nat) : Except ReadError Nat :=
  if n % denominator = 0 then .ok (n / denominator) else .error .overflow

/-- The sum of a duration and further seconds and nanoseconds. -/
def plus (d : Duration) (seconds nanos : Nat) : Except ReadError Duration := do
  let nanos ← word (d.nanos + nanos)
  match ofParts? (d.seconds + seconds) nanos with
  | some sum => .ok sum
  | none => .error .overflow

/-- The sum of a duration and `n` times a scale, over the denominator. -/
def plusScaled (d : Duration) (scale : TimeUnit.Scale) (n denominator : Nat) :
    Except ReadError Duration :=
  match scale with
  | .seconds perUnit => do
      let product ← word (n * perUnit)
      let seconds ← quotient product denominator
      d.plus seconds 0
  | .nanos perUnit => do
      let product ← word (n * perUnit)
      let nanos ← quotient product denominator
      d.plus 0 nanos

/-- The sum of a duration and an amount in the unit of the given name. -/
def plusAmount (d : Duration) (amount : Nat) (fraction : Option Fraction) (name : String) :
    Except ReadError Duration :=
  match TimeUnit.ofName? name with
  | none => .error (if name = "" then .unitNeeded amount else .unknownUnit name)
  | some unit => do
      let sum ← d.plusScaled unit.whole amount 1
      match fraction, unit.fractional? with
      | none, _ => .ok sum
      | some _, none => .error .overflow
      | some f, some scale => sum.plusScaled scale f.numerator f.denominator

/-! ### Reading -/

/-- What is being read. -/
inductive Phase where
  /-- Nothing but blanks so far. -/
  | opening
  /-- Between amounts, since the given offset. -/
  | gap (since : Nat)
  /-- The whole part of an amount. -/
  | amount (n : Nat)
  /-- The fraction of an amount. An error in it is reported at `mark`. -/
  | fraction (n : Nat) (f : Fraction) (mark : Nat)
  /-- The name of the unit of an amount. -/
  | unit (n : Nat) (f : Option Fraction) (name : List Char)
  deriving Repr

/-- What is known after some characters. -/
structure Scan where
  /-- The sum of the amounts that have their unit. -/
  total : Duration
  /-- The bytes read. -/
  offset : Nat
  /-- What is being read. -/
  phase : Phase

/-- Before the first character. -/
def Scan.start : Scan := ⟨zero, 0, .opening⟩

/-- Take one character. -/
def Scan.step (s : Scan) (c : Char) : Except ReadError Scan :=
  let behind := s.offset + c.utf8Size
  let at_ (total : Duration) (phase : Phase) : Except ReadError Scan := .ok ⟨total, behind, phase⟩
  match s.phase with
  | .opening =>
      match Decimal.digit? c with
      | some d => at_ s.total (.amount d)
      | none => if isBlank c then at_ s.total .opening else .error (.numberExpected 0)
  | .gap since =>
      match Decimal.digit? c with
      | some d => at_ s.total (.amount d)
      | none => if isBlank c then at_ s.total (.gap since) else .error (.numberExpected since)
  | .amount n =>
      match Decimal.digit? c with
      | some d => do
          let n ← word (10 * n + d)
          at_ s.total (.amount n)
      | none =>
          if isBlank c then at_ s.total (.amount n)
          else if isUnitLetter c then at_ s.total (.unit n none [c])
          else if c = '.' then at_ s.total (.fraction n .none s.offset)
          else .error (.invalidCharacter s.offset)
  | .fraction n f mark =>
      match Decimal.digit? c with
      | some d => do
          let f ← f.push d
          at_ s.total (.fraction n f behind)
      | none =>
          if isBlank c then at_ s.total (.fraction n f behind)
          else if isUnitLetter c ∧ f.denominator ≠ 1 then at_ s.total (.unit n (some f) [c])
          else .error (.invalidCharacter mark)
  | .unit n f name =>
      match Decimal.digit? c with
      | some d => do
          let total ← s.total.plusAmount n f (String.ofList name)
          at_ total (.amount d)
      | none =>
          if isBlank c then do
            let total ← s.total.plusAmount n f (String.ofList name)
            at_ total (.gap behind)
          else if isUnitLetter c then at_ s.total (.unit n f (name ++ [c]))
          else .error (.invalidCharacter s.offset)

/-- The duration, when no character follows. -/
def Scan.finish (s : Scan) : Except ReadError Duration :=
  match s.phase with
  | .opening => .error .empty
  | .gap _ => .ok s.total
  | .amount n => s.total.plusAmount n none ""
  | .fraction n f mark =>
      if f.denominator = 1 then .error (.invalidCharacter mark)
      else s.total.plusAmount n (some f) ""
  | .unit n f name => s.total.plusAmount n f (String.ofList name)

/-- Read a duration. A lone zero needs no unit. -/
def read (text : List Char) : Except ReadError Duration :=
  if text = ['0'] then .ok zero
  else do
    let scan ← text.foldlM Scan.step Scan.start
    scan.finish

/-! ### Writing -/

/-- The non-zero amounts that make up a duration, largest unit first, with the
names they are written with. Names of days and longer agree in number. -/
def amounts (d : Duration) : List (Nat × String) :=
  let plural (n : Nat) (name : String) : Nat × String := (n, if n = 1 then name else name ++ "s")
  let inYear := d.seconds % 31557600
  let inMonth := inYear % 2630016
  let inDay := inMonth % 86400
  [plural (d.seconds / 31557600) "year",
    plural (inYear / 2630016) "month",
    plural (inMonth / 86400) "day",
    (inDay / 3600, "h"),
    (inDay % 3600 / 60, "m"),
    (inDay % 60, "s"),
    (d.nanos / 1000000, "ms"),
    (d.nanos / 1000 % 1000, "us"),
    (d.nanos % 1000, "ns")].filter fun a => a.1 ≠ 0

/-- Write a duration. -/
def written (d : Duration) : String :=
  match d.amounts with
  | [] => "0s"
  | as => String.intercalate " " (as.map fun a => toString a.1 ++ a.2)

end Duration

end FencedLedger
