/-!
# Durations

A span of time in seconds and nanoseconds. The seconds fit an unsigned 64-bit
word and the nanoseconds stay below a second, so every span has one
representation.
-/

namespace FencedLedger

/-- Nanoseconds in a second. -/
def nanosPerSecond : Nat := 1000000000

/-- A span of time. -/
structure Duration where
  /-- Whole seconds. -/
  seconds : Nat
  /-- Nanoseconds beyond the whole seconds. -/
  nanos : Nat
  /-- The seconds fit a word. -/
  seconds_lt : seconds < UInt64.size
  /-- The nanoseconds do not make up a second. -/
  nanos_lt : nanos < 1000000000

namespace Duration

@[ext] theorem ext {d e : Duration} (hs : d.seconds = e.seconds) (hn : d.nanos = e.nanos) :
    d = e := by
  obtain ⟨s, n, _, _⟩ := d
  obtain ⟨s', n', _, _⟩ := e
  dsimp only at hs hn
  subst hs hn
  rfl

instance : DecidableEq Duration := fun d e =>
  if h : d.seconds = e.seconds ∧ d.nanos = e.nanos then .isTrue (ext h.1 h.2)
  else .isFalse fun e => h (e ▸ ⟨rfl, rfl⟩)

/-- The empty span. -/
def zero : Duration := ⟨0, 0, by decide, by decide⟩

instance : Inhabited Duration := ⟨zero⟩

/-- The span of the given seconds and nanoseconds, unless its seconds do not fit
a word. Nanoseconds beyond a second count as seconds. -/
def ofParts? (seconds nanos : Nat) : Option Duration :=
  if h : seconds + nanos / 1000000000 < UInt64.size then
    some ⟨seconds + nanos / 1000000000, nanos % 1000000000, h, Nat.mod_lt _ (by decide)⟩
  else none

/-- The whole span in nanoseconds. -/
def totalNanos (d : Duration) : Nat := d.seconds * nanosPerSecond + d.nanos

/-- A digit string without the zeros at its end. -/
def dropTrailingZeros (digits : String) : String :=
  String.ofList (digits.toList.reverse.dropWhile (· == '0')).reverse

/-- The decimals of `part` in units of ten to the `width`: a point and the
digits, or nothing for zero. -/
def decimals (width part : Nat) : String :=
  if part = 0 then ""
  else
    let digits := toString part
    let padding := String.ofList (List.replicate (width - digits.length) '0')
    "." ++ dropTrailingZeros (padding ++ digits)

/-- A span below a second in the largest unit of which it holds a whole one. -/
def subsecondText (nanos : Nat) : String :=
  if 1000000 ≤ nanos then toString (nanos / 1000000) ++ decimals 6 (nanos % 1000000) ++ "ms"
  else if 1000 ≤ nanos then toString (nanos / 1000) ++ decimals 3 (nanos % 1000) ++ "µs"
  else toString nanos ++ "ns"

/-- A span as diagnostic dumps show it: decimal seconds, or a smaller unit for a
span below a second. -/
def dump (d : Duration) : String :=
  if d.seconds = 0 then subsecondText d.nanos
  else toString d.seconds ++ decimals 9 d.nanos ++ "s"

end Duration

end FencedLedger
