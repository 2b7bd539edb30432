import FencedLedger.Entry
import FencedLedger.ErrorCode

/-!
# Failures

Each layer has its own causes of failure. A layer that passes on the failure of
the one below keeps the cause, so its code stays visible.
-/

namespace FencedLedger

/-- Why the store refused a call. -/
inductive StoreError where
  /-- The store does not hold the ledger. -/
  | noLedger (ledger : LedgerId)
  /-- The ledger has no entry under the id. -/
  | noEntry (ledger : LedgerId) (entry : EntryId)
  /-- The ledger has an entry under the id already. -/
  | duplicateEntry (ledger : LedgerId) (entry : EntryId)
  /-- The ledger is fenced. -/
  | ledgerFenced (ledger : LedgerId)
  /-- The store does not do what it was asked. -/
  | rejected (reason : String)
  /-- The bytes to store are no entry. -/
  | malformedEntry (short : TooShort)
  /-- Reading or writing failed underneath. -/
  | io (reason : String)
  deriving DecidableEq, Repr

namespace StoreError

/-- The code of a cause. -/
def code : StoreError → ErrorCode
  | .noLedger _ => .noLedger
  | .noEntry _ _ => .noEntry
  | .duplicateEntry _ _ => .duplicateEntry
  | .ledgerFenced _ => .ledgerFenced
  | .rejected _ => .rejected
  | .malformedEntry _ => .malformedEntry
  | .io _ => .io

/-- The words for a cause. -/
def message : StoreError → String
  | .noLedger l => "Ledger " ++ l.text ++ " not found"
  | .noEntry l e => "Entry " ++ e.text ++ " not found in ledger " ++ l.text
  | .duplicateEntry l e => "Duplicate entry " ++ e.text ++ " in ledger " ++ l.text
  | .ledgerFenced l => "Ledger " ++ l.text ++ " is fenced"
  | .rejected reason => "Operation rejected: " ++ reason
  | .malformedEntry short => "Malformed entry: " ++ short.message
  | .io reason => "I/O error: " ++ reason

end StoreError

/-- The calls that a read-only handle refuses. -/
inductive GuardedCall where
  | access
  | fence
  | fenceDurably
  | append
  | noteConfirmed
  deriving DecidableEq, Repr

/-- The published name of a guarded call. -/
def GuardedCall.name : GuardedCall → String
  | .access => "check_access"
  | .fence => "set_fenced"
  | .fenceDurably => "fence_and_log_in_journal"
  | .append => "add_entry"
  | .noteConfirmed => "set_explicit_lac"

/-- Why a handle refused a call, or none was handed out. -/
inductive HandleError where
  /-- The supplied key is not the ledger's. -/
  | unauthorized (ledger : LedgerId)
  /-- The entry belongs to another ledger than the handle. -/
  | ledgerMismatch (encoded expected : LedgerId)
  /-- The entry has no room for a ledger id. -/
  | entryTooShort (short : TooShort)
  /-- The handle only reads. -/
  | readOnly (call : GuardedCall) (ledger : LedgerId)
  /-- The ledger was fenced and then deleted a short while ago. -/
  | fencedAndDeleted (ledger : LedgerId)
  /-- The store failed. -/
  | store (cause : StoreError)
  deriving DecidableEq, Repr

namespace HandleError

/-- The code of a cause. -/
def code : HandleError → ErrorCode
  | .unauthorized _ => .unauthorized
  | .ledgerMismatch _ _ => .ledgerMismatch
  | .entryTooShort _ => .entryTooShort
  | .readOnly _ _ => .readOnly
  | .fencedAndDeleted _ => .fencedAndDeleted
  | .store cause => cause.code

/-- The words for a cause. -/
def message : HandleError → String
  | .unauthorized l => "Master key mismatch for " ++ l.text
  | .ledgerMismatch encoded expected =>
      "Entry for ledger " ++ Decimal.showInt64 encoded.value ++ " was sent to " ++
        Decimal.showInt64 expected.value
  | .entryTooShort s =>
      s!"Entry of {s.length} bytes is too short to carry a ledger id, need {s.required}"
  | .readOnly call l =>
      "Invalid action on read only descriptor: " ++ call.name ++ " on " ++ l.text
  | .fencedAndDeleted l => l.text ++ " was fenced and deleted"
  | .store cause => "Storage error: " ++ cause.message

end HandleError

/-- Why a journal refused an append. -/
inductive JournalError where
  /-- The submitting thread was interrupted. -/
  | interrupted
  /-- The journal takes no more entries. -/
  | shutDown
  deriving DecidableEq, Repr

namespace JournalError

/-- The code of a cause. -/
def code : JournalError → ErrorCode
  | .interrupted => .interrupted
  | .shutDown => .shutDown

/-- The words for a cause. -/
def message : JournalError → String
  | .interrupted => "Journal submission interrupted"
  | .shutDown => "Journal is shut down"

/-- The cause as diagnostic dumps show it. -/
def dump : JournalError → String
  | .interrupted => "Interrupted"
  | .shutDown => "ShutDown"

end JournalError

/-- Why the append of a fence marker has no return code. -/
inductive FenceError where
  /-- The submitting thread was interrupted. -/
  | interrupted
  /-- The journal refused the marker. -/
  | journal (cause : JournalError)
  /-- The journal let go of the append without reporting on it. -/
  | abandoned
  deriving DecidableEq, Repr

namespace FenceError

/-- The code of a cause. -/
def code : FenceError → ErrorCode
  | .interrupted => .interrupted
  | .journal cause => cause.code
  | .abandoned => .fenceAbandoned

/-- The words for a cause. -/
def message : FenceError → String
  | .interrupted => "Interrupted while logging fence entry"
  | .journal cause => "Journal rejected fence entry: " ++ cause.message
  | .abandoned => "Fence entry append was abandoned by the journal"

/-- The cause as diagnostic dumps show it. -/
def dump : FenceError → String
  | .interrupted => "Interrupted"
  | .journal cause => "Journal \x7b source: " ++ cause.dump ++ " \x7d"
  | .abandoned => "Abandoned"

end FenceError

end FencedLedger
