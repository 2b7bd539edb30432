import FencedLedger.Config
import FencedLedger.DeletionMemory

/-!
# Caches of handles

A cache hands out one handle a ledger to all its callers, so that they share one
fencing state. It remembers the ledgers that were deleted while they were fenced
and a handle of theirs was cached.
-/

namespace FencedLedger

/-- A cache of handles, which it knows by number. -/
structure Cache where
  /-- The settings of the cache and of its handles. -/
  config : Config
  /-- The writable handle of each ledger. -/
  writable : Table LedgerId Nat
  /-- The reader of each ledger. -/
  readers : Table LedgerId Nat
  /-- The ledgers that were fenced and deleted. -/
  memory : DeletionMemory

namespace Cache

/-- A cache that has handed out nothing. -/
def create (config : Config) : Cache := ⟨config, .empty, .empty, .empty⟩

instance : Inhabited Cache := ⟨create .standard⟩

/-- The time for which a deletion is remembered. -/
def ttl (c : Cache) : Nat := c.config.ttl.totalNanos

/-- Whether a ledger is remembered at the instant `now`. -/
def recalls (c : Cache) (now : Nat) (ledger : LedgerId) : Bool :=
  c.memory.recalls c.ttl now ledger

/-- Cache a writable handle. -/
def addWritable (c : Cache) (ledger : LedgerId) (handle : Nat) : Cache :=
  { c with writable := c.writable.insert ledger handle }

/-- Cache a reader. -/
def addReader (c : Cache) (ledger : LedgerId) (reader : Nat) : Cache :=
  { c with readers := c.readers.insert ledger reader }

/-- Remember a deletion at the instant `now`. Answers how many ledgers the
capacity of the memory cost. -/
def remember (c : Cache) (now : Nat) (ledger : LedgerId) : Nat × Cache :=
  let (evicted, memory) := c.memory.remember c.ttl c.config.capacity now ledger
  (evicted, { c with memory })

/-- Drop the handles of a ledger. -/
def dropHandles (c : Cache) (ledger : LedgerId) : Cache :=
  { c with writable := c.writable.erase ledger, readers := c.readers.erase ledger }

/-- The cache as diagnostic dumps show it. -/
def dump (c : Cache) : String :=
  "HandleCache \x7b ledgers: " ++ toString c.writable.size ++ ", read_only_ledgers: " ++
    toString c.readers.size ++ ", recently_fenced_and_deleted: " ++ toString c.memory.size ++
    ", .. \x7d"

end Cache

end FencedLedger
