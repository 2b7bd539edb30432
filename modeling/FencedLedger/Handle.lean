import FencedLedger.MasterKey
import FencedLedger.Ident

/-!
# Handles

A handle gives access to one ledger of the store. A writable handle knows the
key that callers must present, and how far the fencing of its ledger got in a
journal. A reader has neither: it is the ledger it reads.
-/

namespace FencedLedger

/-- A writable handle. -/
structure Handle where
  /-- The ledger that the handle gives access to. -/
  ledger : LedgerId
  /-- The key that callers present. -/
  key : MasterKey
  /-- Whether fence markers may be acknowledged before they are on disk. -/
  ackBeforeSync : Bool
  /-- The outcome of the append under way or last made, by number. -/
  latest : Option Nat
  /-- Whether a fence marker of this handle is durable. -/
  persisted : Bool
  deriving DecidableEq, Repr, Inhabited

namespace Handle

/-- A handle that has appended no fence marker. -/
def create (ledger : LedgerId) (key : MasterKey) (ackBeforeSync : Bool) : Handle :=
  ⟨ledger, key, ackBeforeSync, none, false⟩

/-- The handle as diagnostic dumps show it. -/
def dump (h : Handle) : String :=
  "LedgerHandle \x7b ledger_id: " ++ h.ledger.dump ++ ", master_key: " ++ h.key.dump ++
    ", fence_entry_persisted: " ++ toString h.persisted ++ ", .. \x7d"

/-- A reader as diagnostic dumps show it. -/
def dumpReader (ledger : LedgerId) : String :=
  "ReadOnlyLedgerHandle \x7b ledger_id: " ++ ledger.dump ++ ", .. \x7d"

end Handle

/-- A handle as a caller holds it. -/
inductive HandleRef where
  /-- The writable handle with the given number. -/
  | writable (id : Nat)
  /-- The reader with the given number. -/
  | reader (id : Nat)
  deriving DecidableEq, Repr

end FencedLedger
