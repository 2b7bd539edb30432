import FencedLedger.Host

/-!
# Opening ledgers

A caller gets at a ledger through a cache, by presenting the key. The look-up
has three steps, between which others may act: the cached handle is looked for,
the memory of deletions is asked unless a journal is being replayed, and the
handle is made unless somebody made it in between. Making it creates the ledger
under the presented key when the store does not hold it.
-/

namespace FencedLedger

namespace Host

/-- Make a writable handle. The store creates the ledger, or checks the key. -/
def createHandle (w : Host) (ledger : LedgerId) (key : MasterKey) (ackBeforeSync : Bool) :
    Except HandleError Nat × Host :=
  match w.call .bindKey (Store.bindKey ledger key) with
  | (.error e, w) => (.error (.store e), w)
  | (.ok (), w) =>
      (.ok w.handles.next,
        { w with handles := w.handles.add (.create ledger key ackBeforeSync) })

/-- Make a reader of a ledger that the store holds. -/
def createReader (w : Host) (ledger : LedgerId) : Except HandleError Nat × Host :=
  match w.call .holds (Store.holds ledger) with
  | (.error e, w) => (.error (.store e), w)
  | (.ok false, w) => (.error (.store (.noLedger ledger)), w)
  | (.ok true, w) => (.ok w.readers.next, { w with readers := w.readers.add ledger })

/-- Refuse a key, and count that. -/
def refuseKey (w : Host) (ledger : LedgerId) : Except HandleError Unit × Host :=
  (.error (.unauthorized ledger), w.count .unauthorized 1)

/-- Check a presented key against the one of a handle. -/
def checkAccess (w : Host) (h : Nat) (presented : Bytes) : Except HandleError Unit × Host :=
  let handle := w.handleAt h
  if handle.key.accepts presented then (.ok (), w) else w.refuseKey handle.ledger

/-- Check a presented key against the stored one, if the store holds the
ledger. -/
def checkStoredKey (w : Host) (ledger : LedgerId) (presented : Bytes) :
    Except HandleError Unit × Host :=
  match w.call .key (Store.key ledger) with
  | (.error (.noLedger _), w) => (.ok (), w)
  | (.error e, w) => (.error (.store e), w)
  | (.ok key, w) => if key.accepts presented then (.ok (), w) else w.refuseKey ledger

/-- Show the number of cached handles of a kind. -/
def showCached (w : Host) (c : Nat) : HandleKind → Host
  | .writable => w.gauge .writable (w.cacheAt c).writable.size
  | .readOnly => w.gauge .readOnly (w.cacheAt c).readers.size

/-- Get the cached handle of a ledger or else make and cache it, as one step. -/
def obtainHandle (w : Host) (c : Nat) (ledger : LedgerId) (presented : Bytes) :
    Except HandleError Nat × Host :=
  match (w.cacheAt c).writable.get? ledger with
  | some h => (.ok h, w)
  | none =>
      match w.checkStoredKey ledger presented with
      | (.error e, w) => (.error e, w)
      | (.ok (), w) =>
          match w.createHandle ledger ⟨presented⟩ (w.cacheAt c).config.ackBeforeSync with
          | (.error e, w) => (.error e, w)
          | (.ok h, w) => (.ok h, w.modifyCache c (·.addWritable ledger h))

/-- Find the handle of a ledger in a cache, or make it. -/
def findHandle (w : Host) (c : Nat) (ledger : LedgerId) (presented : Bytes) (replay : Bool) :
    Except HandleError Nat × Host :=
  match (w.cacheAt c).writable.get? ledger with
  | some h => (.ok h, w)
  | none =>
      if !replay && (w.cacheAt c).recalls w.now ledger then
        (.error (.fencedAndDeleted ledger), w)
      else
        match w.obtainHandle c ledger presented with
        | (.error e, w) => (.error e, w)
        | (.ok h, w) => (.ok h, w.showCached c .writable)

/-- Count a handle that was not handed out. -/
def countRefusal (w : Host) (e : HandleError) : Host := w.count (.handleErrors e.code) 1

/-- Open a ledger for writing through a cache. -/
def openWritable (w : Host) (c : Nat) (ledger : LedgerId) (presented : Bytes) (replay : Bool) :
    Except HandleError Nat × Host :=
  match w.findHandle c ledger presented replay with
  | (.error e, w) => (.error e, w.countRefusal e)
  | (.ok h, w) =>
      match w.checkAccess h presented with
      | (.error e, w) => (.error e, w.countRefusal e)
      | (.ok (), w) => (.ok h, w)

/-- Open a ledger for reading through a cache. -/
def openReader (w : Host) (c : Nat) (ledger : LedgerId) : Except HandleError Nat × Host :=
  match (w.cacheAt c).readers.get? ledger with
  | some r => (.ok r, w)
  | none =>
      match w.createReader ledger with
      | (.error e, w) => (.error e, w.countRefusal e)
      | (.ok r, w) =>
          (.ok r, (w.modifyCache c (·.addReader ledger r)).showCached c .readOnly)

end Host

end FencedLedger
