import FencedLedger.Host

/-!
# Fencing a ledger durably

Fencing sets the fenced bit of the store and appends a fence marker to a
journal. Callers of one handle share the append under way. The first caller
appends; one that finds the marker durable does not; one that finds an append
under way joins it; and one that finds the last append failed appends again.

A call has two steps, between which others may act. `decideFence` is the first
and is made as one: it sets the bit, chooses the path and puts up the outcome of
an append. `submitMarker` hands the marker to the journal. The end of an append
has two steps as well: the durable mark of the handle, then the outcome.
-/

namespace FencedLedger

/-- A way to a journal, as a caller holds it. -/
inductive JournalPath where
  /-- The journal with the given number. -/
  | journal (id : Nat)
  /-- A journal that reports on each entry with the code and refuses it then. -/
  | reportThenRefuse (code : ReturnCode) (cause : JournalError)
  /-- A journal that fences the handle through `inner` before it hands an entry
  on to `inner`. -/
  | refencing (handle : HandleRef) (inner : JournalPath)
  deriving DecidableEq, Repr

/-- The numbers of the journals that a path leads to. -/
def JournalPath.journals : JournalPath → List Nat
  | .journal id => [id]
  | .reportThenRefuse _ _ => []
  | .refencing _ inner => inner.journals

namespace Host

/-! ### The end of an append -/

/-- Mark a handle as durably fenced. The first time is counted. -/
def markPersisted (w : Host) (h : Nat) : Host :=
  if (w.handleAt h).persisted then w
  else (w.modifyHandle h fun handle => { handle with persisted := true }).count .fencePersisted 1

/-- The first step of the end of a marker's append: the durable mark, or the
count of the failure. -/
def noteMarker (w : Host) (h : Nat) (code : ReturnCode) : Host :=
  if code.isOk then w.markPersisted h else w.count (.fenceLogFailures .code) 1

/-- Run a callback with what the journal reports. -/
def complete (w : Host) (callback : Callback) (report : Completion) : Host :=
  match callback with
  | .fence h o => (w.noteMarker h report.code).settle o (.ok report.code.isOk)
  | .report label => w.emit (.completed label report)

/-- Let go of a callback that was not run. -/
def abandon (w : Host) (callback : Callback) : Host :=
  match callback with
  | .fence _ o => w.settle o (.error .abandoned)
  | .report _ => w

/-! ### A fence call -/

/-- What a fence call decided. -/
structure FenceDecision where
  /-- How the call is answered. -/
  path : FencePath
  /-- The outcome that the call answers. -/
  outcome : Nat
  deriving DecidableEq, Repr

/-- Whether a call on this path appends the marker. -/
def appends : FencePath → Bool
  | .first | .retry => true
  | .alreadyPersisted | .inFlight => false

/-- Put up the outcome of an append to be made. -/
def openAppend (w : Host) (h : Nat) (path : FencePath) : FenceDecision × Host :=
  let w := w.count (.fenceAttempts path) 1
  let (o, w) := w.addOutcome .pending
  (⟨path, o⟩, w.modifyHandle h fun handle => { handle with latest := some o })

/-- The outcome of the append of a handle that is under way. -/
def underWay? (w : Host) (h : Nat) : Option Nat :=
  (w.handleAt h).latest.filter fun o => !(w.outcomeAt o).isDone

/-- Decide on a fence call of a ledger whose fenced bit was set before. -/
def decideAgain (w : Host) (h : Nat) : FenceDecision × Host :=
  if (w.handleAt h).persisted then
    let (o, w) := (w.count (.fenceAttempts .alreadyPersisted) 1).addOutcome (.settled (.ok true))
    (⟨.alreadyPersisted, o⟩, w)
  else
    match w.underWay? h with
    | some o => (⟨.inFlight, o⟩, w.count (.fenceAttempts .inFlight) 1)
    | none => w.openAppend h .retry

/-- The first step of a fence call. -/
def decideFence (w : Host) (h : Nat) : Except HandleError FenceDecision × Host :=
  match w.call .fence (Store.fence (w.handleAt h).ledger) with
  | (.error e, w) => (.error (.store e), w)
  | (.ok true, w) =>
      let (decision, w) := w.openAppend h .first
      (.ok decision, w)
  | (.ok false, w) =>
      let (decision, w) := w.decideAgain h
      (.ok decision, w)

/-- Submits an entry on the given thread: the entry, whether it may be
acknowledged early, and the callback. -/
abbrev Submit := Host → Thread → Bytes → Bool → Callback → Except JournalError Unit × Host

/-- What follows when a journal refuses a marker. An interrupt is raised again,
for its thread to see. -/
def refuseMarker (w : Host) (t : Thread) (o : Nat) : JournalError → Host
  | .interrupted =>
      let w := { w with interrupts := w.interrupts.raise t }
      (w.count (.fenceLogFailures .interrupted) 1).settle o (.error .interrupted)
  | cause => (w.count (.fenceLogFailures .journal) 1).settle o (.error (.journal cause))

/-- The second step of a fence call. -/
def submitMarker (w : Host) (submit : Submit) (t : Thread) (h o : Nat) : Host :=
  let handle := w.handleAt h
  match submit w t (Entry.fenceMarker handle.ledger) handle.ackBeforeSync (.fence h o) with
  | (.ok (), w) => w
  | (.error cause, w) => w.refuseMarker t o cause

/-- Fence the ledger of a handle and append the marker with `submit`, unless
that is done or under way. Answers the outcome. -/
def fenceWith (w : Host) (submit : Submit) (t : Thread) (h : Nat) :
    Except HandleError Nat × Host :=
  match w.decideFence h with
  | (.error e, w) => (.error e, w)
  | (.ok decision, w) =>
      (.ok decision.outcome,
        if appends decision.path then w.submitMarker submit t h decision.outcome else w)

/-- Fence the ledger of a handle with `submit`. A reader refuses. -/
def fenceThrough (w : Host) (submit : Submit) (t : Thread) :
    HandleRef → Except HandleError Nat × Host
  | .writable h => w.fenceWith submit t h
  | .reader r => (.error (.readOnly .fenceDurably (w.ledgerOf (.reader r))), w)

/-! ### Submitting to a journal -/

/-- Submit an entry to the journal with the given number. A journal that is gone
takes no entries. -/
def submitTo (id : Nat) : Submit := fun w t entry ackBeforeSync callback =>
  match w.journals.get? id with
  | none => (.error .shutDown, w)
  | some journal =>
      let (verdict, journal') :=
        journal.submit (w.interrupts.isRaised t) entry ackBeforeSync callback
      let interrupts :=
        if journal.heedsInterrupts then w.interrupts.clear t else w.interrupts
      let w := { w with journals := w.journals.modify id fun _ => journal', interrupts }
      match verdict with
      | .refused cause => (.error cause, w)
      | .completed report => (.ok (), w.complete callback report)
      | .held => (.ok (), w)

/-- Submit an entry on a path. -/
def submit : JournalPath → Submit
  | .journal id => submitTo id
  | .reportThenRefuse code cause => fun w _ entry _ callback =>
      (.error cause, w.complete callback (.of entry code))
  | .refencing handle inner => fun w t entry ackBeforeSync callback =>
      let (answer, w) := w.fenceThrough (submit inner) t handle
      let w := w.emit (.refenced (answer.map w.outcomeAt))
      submit inner w t entry ackBeforeSync callback

/-- Fence the ledger of a handle durably, through the journal on a path. -/
def fence (w : Host) (path : JournalPath) (t : Thread) (handle : HandleRef) :
    Except HandleError Nat × Host :=
  w.fenceThrough (submit path) t handle

/-! ### Completions -/

/-- Change a scripted journal. -/
def modifyScripted (w : Host) (id : Nat) (f : ScriptedJournal → ScriptedJournal) : Host :=
  { w with
    journals := w.journals.modify id fun
      | .scripted j => .scripted (f j)
      | .memory j => .memory j }

/-- The callbacks that the journal with the given number holds back. -/
def heldBy (w : Host) (id : Nat) : List Held :=
  match w.journals.get? id with
  | none => []
  | some journal => journal.held

/-- Take the callback that a journal held longest. -/
def takeHeld (w : Host) (id : Nat) : Option Held × Host :=
  match w.heldBy id with
  | [] => (none, w)
  | first :: held => (some first, w.modifyScripted id fun j => { j with held })

/-- Run the callback that a journal held longest. Answers whether there was
one. -/
def completeNext (w : Host) (id : Nat) (code : ReturnCode) : Bool × Host :=
  match w.takeHeld id with
  | (none, w) => (false, w)
  | (some held, w) => (true, w.complete held.callback (.of held.entry code))

/-- Run up to `bound` callbacks that a journal holds, oldest first. -/
def completeUpTo (w : Host) (id : Nat) (code : ReturnCode) : (bound : Nat) → Nat × Host
  | 0 => (0, w)
  | bound + 1 =>
      match w.completeNext id code with
      | (false, w) => (0, w)
      | (true, w) =>
          let (count, w) := w.completeUpTo id code bound
          (count + 1, w)

/-- Run every callback that a journal holds, oldest first. Answers how many
there were. -/
def completeAll (w : Host) (id : Nat) (code : ReturnCode) : Nat × Host :=
  w.completeUpTo id code (w.heldBy id).length

/-- Let go of the callback that a journal held longest, without running it. -/
def dropNext (w : Host) (id : Nat) : Bool × Host :=
  match w.takeHeld id with
  | (none, w) => (false, w)
  | (some held, w) => (true, w.abandon held.callback)

/-- Let go of a journal, with the callbacks that it holds. -/
def releaseJournal (w : Host) (id : Nat) : Host :=
  (w.heldBy id).foldl (fun w held => w.abandon held.callback)
    { w with journals := w.journals.release id }

end Host

end FencedLedger
