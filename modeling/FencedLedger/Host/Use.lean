import FencedLedger.Host.Deletion
import FencedLedger.Host.Fencing
import FencedLedger.Host.Watching

/-!
# Using handles

What callers ask of a ledger through a handle. Most calls go on to the store for
the ledger of the handle. A writable handle checks keys itself, and that entries
belong to its ledger; a reader refuses every call that could change something.
-/

namespace FencedLedger

/-- Requests that concern one ledger and only the store. -/
inductive Request where
  | bindKey (ledger : LedgerId) (key : Bytes)
  | key (ledger : LedgerId)
  | holds (ledger : LedgerId)
  | entry (ledger : LedgerId) (id : EntryId)
  | fence (ledger : LedgerId)
  | isFenced (ledger : LedgerId)
  | noteConfirmed (ledger : LedgerId) (stated : Bytes)
  | notedConfirmed (ledger : LedgerId)
  | confirmed (ledger : LedgerId)
  | watch (ledger : LedgerId) (known : EntryId) (watcher : Watcher)
  | unwatch (ledger : LedgerId) (watcher : Watcher)
  | entryIds (ledger : LedgerId)

/-- What a call answers. -/
inductive Answer where
  /-- Nothing but that it is done. -/
  | done
  | flag (b : Bool)
  | count (n : Nat)
  | bytes (b : Bytes)
  | maybeBytes (b : Option Bytes)
  | entry (id : EntryId)
  | entries (ids : List EntryId)
  /-- The number of an object that was made or found. -/
  | object (id : Nat)
  deriving DecidableEq, Repr

namespace Request

/-- The kind of call that a request is. -/
def call : Request → StoreCall
  | .bindKey _ _ => .bindKey
  | .key _ => .key
  | .holds _ => .holds
  | .entry _ _ => .entry
  | .fence _ => .fence
  | .isFenced _ => .isFenced
  | .noteConfirmed _ _ => .noteConfirmed
  | .notedConfirmed _ => .notedConfirmed
  | .confirmed _ => .confirmed
  | .watch _ _ _ => .watch
  | .unwatch _ _ => .unwatch
  | .entryIds _ => .entryIds

/-- The action with its answer as one of many. -/
def answering {α : Type} (action : StoreAction α) (f : α → Answer) : StoreAction Answer :=
  fun s => (action s).map fun r => (f r.1, r.2)

/-- What a request does to the store. -/
def action : Request → StoreAction Answer
  | .bindKey l secret => answering (Store.bindKey l ⟨secret⟩) fun _ => .done
  | .key l => answering (Store.key l) fun secret => .bytes secret.bytes
  | .holds l => answering (Store.holds l) .flag
  | .entry l id => answering (Store.entry l id) .bytes
  | .fence l => answering (Store.fence l) .flag
  | .isFenced l => answering (Store.isFenced l) .flag
  | .noteConfirmed l stated => answering (Store.noteConfirmed l stated) fun _ => .done
  | .notedConfirmed l => answering (Store.notedConfirmed l) .maybeBytes
  | .confirmed l => answering (Store.confirmed l) .entry
  | .watch l known watcher => answering (Store.watch l known watcher) .flag
  | .unwatch l watcher => answering (Store.unwatch l watcher) fun _ => .done
  | .entryIds l => answering (Store.entryIds l) .entries

end Request

/-- What callers ask of a handle, durable fencing apart. -/
inductive HandleCall where
  | access (presented : Bytes)
  | fence
  | isFenced
  | append (entry : Bytes)
  | entry (id : EntryId)
  | noteConfirmed (stated : Bytes)
  | notedConfirmed
  | confirmed
  | watch (known : EntryId) (watcher : Watcher)
  | unwatch (watcher : Watcher)
  /-- The entries of a ledger, which need not be the one of the handle. -/
  | entryIds (ledger : LedgerId)

namespace HandleCall

/-- The call as one that readers refuse. -/
def guarded? : HandleCall → Option GuardedCall
  | .access _ => some .access
  | .fence => some .fence
  | .append _ => some .append
  | .noteConfirmed _ => some .noteConfirmed
  | _ => none

/-- The request that a call on a handle of `ledger` goes on with. -/
def request? (ledger : LedgerId) : HandleCall → Option Request
  | .access _ | .append _ => none
  | .fence => some (.fence ledger)
  | .isFenced => some (.isFenced ledger)
  | .entry id => some (.entry ledger id)
  | .noteConfirmed stated => some (.noteConfirmed ledger stated)
  | .notedConfirmed => some (.notedConfirmed ledger)
  | .confirmed => some (.confirmed ledger)
  | .watch known watcher => some (.watch ledger known watcher)
  | .unwatch watcher => some (.unwatch ledger watcher)
  | .entryIds other => some (.entryIds other)

end HandleCall

namespace Host

/-- Send a request to the store on the given way. -/
def request (w : Host) (access : Access) (r : Request) : Except StoreError Answer × Host :=
  w.send access r.call r.action

/-- Send a request to the store on behalf of a handle. -/
def forward (w : Host) (r : Request) : Except HandleError Answer × Host :=
  match w.request .planned r with
  | (.error e, w) => (.error (.store e), w)
  | (.ok a, w) => (.ok a, w)

/-- Store an entry through a handle of the ledger that it names. -/
def appendThrough (w : Host) (ledger : LedgerId) (entry : Bytes) :
    Except HandleError Answer × Host :=
  match Entry.readLedger entry with
  | .error short => (.error (.entryTooShort short), w)
  | .ok encoded =>
      if encoded ≠ ledger then (.error (.ledgerMismatch encoded ledger), w)
      else
        match w.append .planned entry with
        | (.error e, w) => (.error (.store e), w)
        | (.ok id, w) => (.ok (.entry id), w)

/-- Make a call on a writable handle. -/
def useWritable (w : Host) (h : Nat) (call : HandleCall) : Except HandleError Answer × Host :=
  let ledger := (w.handleAt h).ledger
  match call with
  | .access presented =>
      match w.checkAccess h presented with
      | (.error e, w) => (.error e, w)
      | (.ok (), w) => (.ok .done, w)
  | .append entry => w.appendThrough ledger entry
  | call =>
      match call.request? ledger with
      | some r => w.forward r
      | none => (.ok .done, w)

/-- Make a call on a reader of a ledger. -/
def useReader (w : Host) (ledger : LedgerId) (call : HandleCall) :
    Except HandleError Answer × Host :=
  match call.guarded?, call.request? ledger with
  | some guarded, _ => (.error (.readOnly guarded ledger), w)
  | none, some r => w.forward r
  | none, none => (.ok .done, w)

/-- Make a call on a handle. -/
def use (w : Host) (handle : HandleRef) (call : HandleCall) : Except HandleError Answer × Host :=
  match handle with
  | .writable h => w.useWritable h call
  | .reader _ => w.useReader (w.ledgerOf handle) call

end Host

end FencedLedger
