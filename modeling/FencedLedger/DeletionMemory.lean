import FencedLedger.Ident
import FencedLedger.Table

/-!
# The memory of deletions

Ledgers that were fenced and deleted, with the instant of their deletion. Each
is remembered for a time to live, and at most so many at once: a full memory
first forgets what has expired and then, if it is still full, the oldest tenth,
and at least as many as it takes to make room. Instants and the time to live are
in nanoseconds.
-/

namespace FencedLedger

/-- Ledgers that were fenced and deleted, with the instant of their deletion. -/
structure DeletionMemory where
  /-- The instant of each remembered deletion. -/
  deletions : Table LedgerId Nat

namespace DeletionMemory

/-- The memory of nothing. -/
def empty : DeletionMemory := ⟨.empty⟩

/-- The number of ledgers in memory, expired ones included. -/
def size (m : DeletionMemory) : Nat := m.deletions.size

/-- Whether a ledger is remembered at the instant `now`. -/
def recalls (m : DeletionMemory) (ttl now : Nat) (ledger : LedgerId) : Bool :=
  match m.deletions.get? ledger with
  | none => false
  | some deleted => now - deleted < ttl

/-- Forget what has expired at the instant `now`. -/
def prune (m : DeletionMemory) (ttl now : Nat) : DeletionMemory :=
  ⟨m.deletions.filter fun _ deleted => now - deleted < ttl⟩

/-- The ledgers in memory, the one deleted first in front. -/
def oldestFirst (m : DeletionMemory) : List LedgerId :=
  (m.deletions.entries.mergeSort fun a b => a.2 ≤ b.2).map Prod.fst

/-- Forget the given ledgers. -/
def forget (m : DeletionMemory) (ledgers : List LedgerId) : DeletionMemory :=
  ⟨m.deletions.filter fun l _ => !ledgers.contains l⟩

/-- How many ledgers a memory of `size` gives up when it is full. -/
def excess (size capacity : Nat) : Nat := max (size + 1 - capacity) (capacity / 10)

/-- Make room for one more ledger at the instant `now`. Answers how many ledgers
the capacity costs. -/
def makeRoom (m : DeletionMemory) (ttl capacity now : Nat) : Nat × DeletionMemory :=
  let m := if capacity ≤ m.size then m.prune ttl now else m
  if capacity ≤ m.size then
    let count := excess m.size capacity
    (count, m.forget (m.oldestFirst.take count))
  else (0, m)

/-- Remember that a ledger was deleted at the instant `now`. Answers how many
ledgers the capacity cost. -/
def remember (m : DeletionMemory) (ttl capacity now : Nat) (ledger : LedgerId) :
    Nat × DeletionMemory :=
  let (evicted, m) := m.makeRoom ttl capacity now
  (evicted, ⟨m.deletions.insert ledger now⟩)

end DeletionMemory

end FencedLedger
