import FencedLedger.Host.Use

/-!
# Operations on a host

Every way to act on a host, as one type. An operation that names an object the
host does not hold changes nothing. A run is a list of operations.
-/

namespace FencedLedger

/-- A way to act on a host. -/
inductive Op where
  /-- Send a request to the store. -/
  | request (access : Host.Access) (r : Request)
  /-- Store an entry. -/
  | append (access : Host.Access) (entry : Bytes)
  /-- Delete a ledger. -/
  | remove (access : Host.Access) (ledger : LedgerId)
  /-- Let somebody observe deletions. -/
  | observe (observer : Observer)
  /-- Let go of an observer. -/
  | unobserve (id : Nat)
  /-- Arm a fault for a kind of call. -/
  | planFault (call : StoreCall) (fault : Fault)
  /-- Disarm every fault. -/
  | clearFaults
  /-- Make a cache. -/
  | createCache (config : Config)
  /-- Let go of a cache. -/
  | releaseCache (id : Nat)
  /-- Open a ledger for writing through a cache. -/
  | openWritable (cache : Nat) (ledger : LedgerId) (presented : Bytes) (replay : Bool)
  /-- Open a ledger for reading through a cache. -/
  | openReader (cache : Nat) (ledger : LedgerId)
  /-- Tell a cache that a ledger was deleted. -/
  | tellCache (cache : Nat) (ledger : LedgerId) (wasFenced : Bool)
  /-- Make a writable handle outside of any cache. -/
  | createHandle (ledger : LedgerId) (key : Bytes) (ackBeforeSync : Bool)
  /-- Make a reader outside of any cache. -/
  | createReader (ledger : LedgerId)
  /-- Make a call on a handle. -/
  | use (handle : HandleRef) (call : HandleCall)
  /-- Fence the ledger of a handle durably, on a thread. -/
  | fence (handle : HandleRef) (path : JournalPath) (thread : Thread)
  /-- Make a memory journal. -/
  | createMemoryJournal
  /-- Make a scripted journal. -/
  | createScriptedJournal (mode : AckMode)
  /-- Let go of a journal. -/
  | releaseJournal (id : Nat)
  /-- Submit an entry on a thread, and report the end of its append. -/
  | log (path : JournalPath) (thread : Thread) (entry : Bytes) (ackBeforeSync : Bool)
      (label : String)
  /-- Let a memory journal take no more entries. -/
  | shutDown (journal : Nat)
  /-- Change how a scripted journal reports on appends. -/
  | setMode (journal : Nat) (mode : AckMode)
  /-- Queue a failure for a submission to a scripted journal. -/
  | queueFailure (journal : Nat) (cause : JournalError)
  /-- Run the callback that a journal held longest. -/
  | completeNext (journal : Nat) (code : ReturnCode)
  /-- Run every callback that a journal holds. -/
  | completeAll (journal : Nat) (code : ReturnCode)
  /-- Let go of the callback that a journal held longest. -/
  | dropNext (journal : Nat)
  /-- Make an outcome that is settled from the start. -/
  | createOutcome (result : FenceResult)
  /-- Raise the interrupt flag of a thread. -/
  | raise (thread : Thread)
  /-- Take down the interrupt flag of a thread. -/
  | takeInterrupt (thread : Thread)
  /-- Start a worker thread. -/
  | startWorker

/-- Why an operation failed. -/
inductive Failure where
  | store (cause : StoreError)
  | handle (cause : HandleError)
  | journal (cause : JournalError)
  /-- The host does not hold an object that the operation names. -/
  | unknown
  deriving DecidableEq, Repr

namespace Host

/-- An answer with its error as one of many. -/
def answer {ε α : Type} (wrap : ε → Failure) (f : α → Answer) (r : Except ε α × Host) :
    Except Failure Answer × Host :=
  match r with
  | (.error e, w) => (.error (wrap e), w)
  | (.ok a, w) => (.ok (f a), w)

/-- Do something that cannot fail. -/
def done (w : Host) : Except Failure Answer × Host := (.ok .done, w)

/-- Do something if the host holds what it needs. -/
def whenHeld (w : Host) (held : Bool) (r : Except Failure Answer × Host) :
    Except Failure Answer × Host :=
  if held then r else (.error .unknown, w)

/-- Whether the host holds every object on a path. -/
def knowsPath (w : Host) : JournalPath → Bool
  | .journal id => w.journals.holds id
  | .reportThenRefuse _ _ => true
  | .refencing handle inner => w.knowsHandle handle && w.knowsPath inner

/-- Perform an operation. -/
def perform (w : Host) : Op → Except Failure Answer × Host
  | .request access r => answer .store id (w.request access r)
  | .append access entry => answer .store .entry (w.append access entry)
  | .remove access ledger => answer .store (fun _ => .done) (w.remove access ledger)
  | .observe observer =>
      let id := w.observers.next
      (.ok (.object id),
        ({ w with observers := w.observers.add observer }).subscribe (.observer id))
  | .unobserve id =>
      w.whenHeld (w.observers.holds id) (done { w with observers := w.observers.release id })
  | .planFault call fault => done { w with faults := w.faults.map (·.arm call fault) }
  | .clearFaults => done { w with faults := w.faults.map FaultPlan.clear }
  | .createCache config =>
      let id := w.caches.next
      (.ok (.object id),
        ({ w with caches := w.caches.add (.create config) }).subscribe (.cache id))
  | .releaseCache id =>
      w.whenHeld (w.caches.holds id) (done { w with caches := w.caches.release id })
  | .openWritable c ledger presented replay =>
      w.whenHeld (w.caches.holds c)
        (answer .handle .object (w.openWritable c ledger presented replay))
  | .openReader c ledger =>
      w.whenHeld (w.caches.holds c) (answer .handle .object (w.openReader c ledger))
  | .tellCache c ledger wasFenced =>
      w.whenHeld (w.caches.holds c) (done (w.tellCache c ledger wasFenced))
  | .createHandle ledger key ackBeforeSync =>
      answer .handle .object (w.createHandle ledger ⟨key⟩ ackBeforeSync)
  | .createReader ledger => answer .handle .object (w.createReader ledger)
  | .use handle call =>
      w.whenHeld (w.knowsHandle handle) (answer .handle id (w.use handle call))
  | .fence handle path thread =>
      w.whenHeld (w.knowsHandle handle && w.knowsPath path)
        (answer .handle .object (w.fence path thread handle))
  | .createMemoryJournal =>
      (.ok (.object w.journals.next),
        { w with journals := w.journals.add (.memory .empty) })
  | .createScriptedJournal mode =>
      (.ok (.object w.journals.next),
        { w with journals := w.journals.add (.scripted (.start mode)) })
  | .releaseJournal id => w.whenHeld (w.journals.holds id) (done (w.releaseJournal id))
  | .log path thread entry ackBeforeSync label =>
      w.whenHeld (w.knowsPath path)
        (answer .journal (fun _ => .done)
          (submit path w thread entry ackBeforeSync (.report label)))
  | .shutDown id =>
      done { w with
        journals := w.journals.modify id fun
          | .memory j => .memory { j with shutDown := true }
          | .scripted j => .scripted j }
  | .setMode id mode => done (w.modifyScripted id fun j => { j with mode })
  | .queueFailure id cause =>
      done (w.modifyScripted id fun j => { j with failures := j.failures ++ [cause] })
  | .completeNext id code =>
      let (ran, w) := w.completeNext id code
      (.ok (.flag ran), w)
  | .completeAll id code =>
      let (count, w) := w.completeAll id code
      (.ok (.count count), w)
  | .dropNext id =>
      let (dropped, w) := w.dropNext id
      (.ok (.flag dropped), w)
  | .createOutcome result =>
      let (o, w) := w.addOutcome (.settled result)
      (.ok (.object o), w)
  | .raise thread => done { w with interrupts := w.interrupts.raise thread }
  | .takeInterrupt thread =>
      (.ok (.flag (w.interrupts.isRaised thread)),
        { w with interrupts := w.interrupts.clear thread })
  | .startWorker => (.ok (.object w.workers), { w with workers := w.workers + 1 })

/-- The host behind a run. -/
def run (w : Host) (ops : List Op) : Host := ops.foldl (fun w op => (w.perform op).2) w

end Host

end FencedLedger
