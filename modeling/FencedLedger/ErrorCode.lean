/-!
# Error codes

Each cause of failure has a number that callers and metrics refer to. The
thousands tell the layer: handles, the store, journals.
-/

namespace FencedLedger

/-- The numbered causes of failure. -/
inductive ErrorCode where
  | unauthorized
  | readOnly
  | ledgerMismatch
  | entryTooShort
  | fencedAndDeleted
  | fenceAbandoned
  | noLedger
  | noEntry
  | duplicateEntry
  | ledgerFenced
  | rejected
  | malformedEntry
  | io
  | interrupted
  | shutDown
  deriving DecidableEq, Repr

namespace ErrorCode

/-- Every cause, by ascending number. -/
def all : List ErrorCode :=
  [.unauthorized, .readOnly, .ledgerMismatch, .entryTooShort, .fencedAndDeleted,
    .fenceAbandoned, .noLedger, .noEntry, .duplicateEntry, .ledgerFenced, .rejected,
    .malformedEntry, .io, .interrupted, .shutDown]

/-- The number of a cause. -/
def number : ErrorCode → Nat
  | .unauthorized => 1000
  | .readOnly => 1001
  | .ledgerMismatch => 1100
  | .entryTooShort => 1101
  | .fencedAndDeleted => 1200
  | .fenceAbandoned => 1201
  | .noLedger => 2000
  | .noEntry => 2001
  | .duplicateEntry => 2002
  | .ledgerFenced => 2003
  | .rejected => 2004
  | .malformedEntry => 2005
  | .io => 2006
  | .interrupted => 3000
  | .shutDown => 3001

/-- The cause with the given number. -/
def ofNumber? (n : Nat) : Option ErrorCode := all.find? fun c => c.number = n

/-- The published name of a cause. -/
def name : ErrorCode → String
  | .unauthorized => "UnauthorizedAccess"
  | .readOnly => "ReadOnlyHandle"
  | .ledgerMismatch => "LedgerIdMismatch"
  | .entryTooShort => "EntryTooShort"
  | .fencedAndDeleted => "LedgerFencedAndDeleted"
  | .fenceAbandoned => "FenceAbandoned"
  | .noLedger => "StorageNoLedger"
  | .noEntry => "StorageNoEntry"
  | .duplicateEntry => "StorageDuplicateEntry"
  | .ledgerFenced => "StorageLedgerFenced"
  | .rejected => "StorageOperationRejected"
  | .malformedEntry => "StorageMalformedEntry"
  | .io => "StorageIo"
  | .interrupted => "JournalInterrupted"
  | .shutDown => "JournalShutDown"

/-- Whether the same call may succeed when it is made again. -/
def isRetryable : ErrorCode → Bool
  | .fenceAbandoned | .rejected | .io | .interrupted => true
  | _ => false

/-- The cause as messages show it. -/
def text (c : ErrorCode) : String := toString c.number

end ErrorCode

end FencedLedger
