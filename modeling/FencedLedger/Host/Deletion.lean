import FencedLedger.Host.Opening

/-!
# Deleting ledgers

A ledger is removed from the store first, and then the subscribers are told, in
order of subscription. What they are told was fixed at the removal, whatever the
ones before them did. A cache drops the handles of the ledger; an observer may
look the ledger up again, and so create it anew.
-/

namespace FencedLedger

namespace Host

/-- Let a cache remember that a ledger was fenced and deleted. Every remembered
deletion has an instant of its own. -/
def rememberDeletion (w : Host) (c : Nat) (ledger : LedgerId) : Host :=
  let (evicted, cache) := (w.cacheAt c).remember w.now ledger
  let w := if evicted = 0 then w else w.count .evictions evicted
  { w.modifyCache c (fun _ => cache) with now := w.now + 1 }

/-- Let a cache drop the handles of a ledger. -/
def dropHandles (w : Host) (c : Nat) (ledger : LedgerId) : Host :=
  ((w.modifyCache c (·.dropHandles ledger)).showCached c .writable).showCached c .readOnly

/-- Tell a cache of a deletion. It remembers a fenced ledger whose writable
handle it had handed out. -/
def tellCache (w : Host) (c : Nat) (ledger : LedgerId) (wasFenced : Bool) : Host :=
  let w :=
    if wasFenced && (w.cacheAt c).writable.contains ledger then w.rememberDeletion c ledger
    else w
  w.dropHandles c ledger

/-- Tell an observer of a deletion. -/
def tellObserver (w : Host) (observer : Observer) (ledger : LedgerId) (wasFenced : Bool) :
    Host :=
  let held := w.store.ledgers.contains ledger
  match observer.reopening with
  | none => w.emit (.deleted observer.label ledger wasFenced held none)
  | some r =>
      let (answer, w) := w.openWritable r.cache ledger r.key r.replay
      w.emit (.deleted observer.label ledger wasFenced held (some (answer.map fun _ => ())))

/-- Tell a subscriber of a deletion. -/
def tellSubscriber (ledger : LedgerId) (wasFenced : Bool) (w : Host) (who : Subscriber) : Host :=
  match who with
  | .cache c => w.tellCache c ledger wasFenced
  | .observer o =>
      match w.observers.get? o with
      | none => w
      | some observer => w.tellObserver observer ledger wasFenced

/-- Delete a ledger, and tell the subscribers. -/
def remove (w : Host) (access : Access) (ledger : LedgerId) : Except StoreError Unit × Host :=
  match w.send access .remove (Store.remove w.isPresent ledger) with
  | (.error e, w) => (.error e, w)
  | (.ok (wasFenced, subscribers), w) =>
      (.ok (), subscribers.foldl (tellSubscriber ledger wasFenced) w)

end Host

end FencedLedger
