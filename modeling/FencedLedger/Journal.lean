import FencedLedger.Error
import FencedLedger.ReturnCode

/-!
# Journals

A journal takes entries and reports on each append through a callback, at most
once. The memory journal reports at once. The scripted journal does what it was
told: it reports at once or holds the callbacks back, and refuses submissions
with the failures queued for it.

A submission does not run the callback. It answers what the journal makes of it,
and the caller runs the callback once the journal has changed.
-/

namespace FencedLedger

/-- What is to be done when an append ends. -/
inductive Callback where
  /-- Mark the handle as durably fenced, if the append succeeded, and settle the
  outcome. -/
  | fence (handle outcome : Nat)
  /-- Report the end of the append under a label. -/
  | report (label : String)
  deriving DecidableEq, Repr

/-- What a journal reports about an append. -/
structure Completion where
  /-- How the append ended. -/
  code : ReturnCode
  /-- The ledger that the entry names. -/
  ledger : LedgerId
  /-- The id that the entry names. -/
  entry : EntryId
  deriving DecidableEq, Repr

/-- The report on an entry, which names no ids when it has no room for them. -/
def Completion.of (entry : Bytes) (code : ReturnCode) : Completion :=
  match Entry.readHeader entry with
  | .ok header => ⟨code, header.ledger, header.entry⟩
  | .error _ => ⟨code, ⟨-1⟩, .unset⟩

/-- An entry that a journal took. -/
structure Journaled where
  /-- The bytes of the entry. -/
  entry : Bytes
  /-- Whether it may be acknowledged before it is on disk. -/
  ackBeforeSync : Bool
  deriving DecidableEq, Repr

/-- A journal that keeps its entries in memory. -/
structure MemoryJournal where
  /-- The entries taken, oldest first. -/
  entries : List Journaled
  /-- Whether the journal takes no more entries. -/
  shutDown : Bool

/-- How a scripted journal reports on appends. -/
inductive AckMode where
  /-- At once, with the given code. -/
  | immediate (code : ReturnCode)
  /-- When it is told to. -/
  | hold
  deriving DecidableEq, Repr

/-- A callback that a journal holds back. -/
structure Held where
  /-- The entry that the callback reports on. -/
  entry : Bytes
  /-- The callback. -/
  callback : Callback
  deriving DecidableEq, Repr

/-- A journal that does what it was told. -/
structure ScriptedJournal where
  /-- How it reports on the next append. -/
  mode : AckMode
  /-- The failures for the next submissions, first one first. -/
  failures : List JournalError
  /-- The entries taken, oldest first. -/
  submissions : List Journaled
  /-- The callbacks held back, oldest first. -/
  held : List Held

/-- The journals that keep a state. -/
inductive Journal where
  | memory (journal : MemoryJournal)
  | scripted (journal : ScriptedJournal)

/-- What a journal makes of a submission. -/
inductive Verdict where
  /-- It does not take the entry and never reports on it. -/
  | refused (cause : JournalError)
  /-- It reports at once. -/
  | completed (report : Completion)
  /-- It holds the callback back. -/
  | held
  deriving DecidableEq, Repr

namespace MemoryJournal

/-- The journal without entries. -/
def empty : MemoryJournal := ⟨[], false⟩

/-- Submit an entry from a thread that may be interrupted. A journal that is
shut down looks no further. Entries without ids are not kept and reported as not
written. -/
def submit (j : MemoryJournal) (interrupted : Bool) (entry : Bytes) (ackBeforeSync : Bool) :
    Verdict × MemoryJournal :=
  if j.shutDown then (.refused .shutDown, j)
  else if interrupted then (.refused .interrupted, j)
  else if entry.length < 16 then (.completed (.of entry .writeFailure), j)
  else
    (.completed (.of entry .ok), { j with entries := j.entries ++ [⟨entry, ackBeforeSync⟩] })

end MemoryJournal

namespace ScriptedJournal

/-- A journal that reports as `mode` says and was told nothing else. -/
def start (mode : AckMode) : ScriptedJournal := ⟨mode, [], [], []⟩

/-- Submit an entry from a thread that may be interrupted. An interrupt leaves
the queued failures for later submissions. -/
def submit (j : ScriptedJournal) (interrupted : Bool) (entry : Bytes) (ackBeforeSync : Bool)
    (callback : Callback) : Verdict × ScriptedJournal :=
  if interrupted then (.refused .interrupted, j)
  else
    match j.failures with
    | cause :: failures => (.refused cause, { j with failures })
    | [] =>
        let j : ScriptedJournal :=
          { j with submissions := j.submissions ++ [⟨entry, ackBeforeSync⟩] }
        match j.mode with
        | .immediate code => (.completed (.of entry code), j)
        | .hold => (.held, { j with held := j.held ++ [⟨entry, callback⟩] })

/-- Let go of the callback held longest. -/
def takeHeld (j : ScriptedJournal) : Option (Held × ScriptedJournal) :=
  match j.held with
  | [] => none
  | first :: held => some (first, { j with held })

/-- The journal as diagnostic dumps show it. -/
def dump (j : ScriptedJournal) : String :=
  let mode := match j.mode with
    | .immediate code => "Immediate(" ++ code.dump ++ ")"
    | .hold => "Hold"
  "ScriptedJournal \x7b mode: " ++ mode ++ ", submissions: " ++ toString j.submissions.length ++
    ", pending: " ++ toString j.held.length ++ " \x7d"

end ScriptedJournal

namespace Journal

/-- Submit an entry from a thread that may be interrupted. -/
def submit (j : Journal) (interrupted : Bool) (entry : Bytes) (ackBeforeSync : Bool)
    (callback : Callback) : Verdict × Journal :=
  match j with
  | .memory j =>
      let (verdict, j) := j.submit interrupted entry ackBeforeSync
      (verdict, .memory j)
  | .scripted j =>
      let (verdict, j) := j.submit interrupted entry ackBeforeSync callback
      (verdict, .scripted j)

/-- Whether a submission looks at the interrupt flag of its thread, and so
clears it. -/
def heedsInterrupts : Journal → Bool
  | .memory j => !j.shutDown
  | .scripted _ => true

/-- The callbacks held back, oldest first. -/
def held : Journal → List Held
  | .memory _ => []
  | .scripted j => j.held

end Journal

end FencedLedger
