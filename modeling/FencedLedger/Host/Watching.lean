import FencedLedger.Host

/-!
# Telling watchers

An entry that advances the last confirmed one of its ledger wakes the watchers
who wait for that. They are told after the entry is stored, one after the other,
and may ask the store in turn: wait again, or read what they were told.
-/

namespace FencedLedger

namespace Host

/-- Tell a watcher of an advance. -/
def tellWatcher (w : Host) (notice : Notice) : Host :=
  match notice.watcher.reaction with
  | .record => w.emit (.advanced notice .recorded)
  | .rearm =>
      let (answer, w) :=
        w.call .watch (Store.watch notice.ledger notice.confirmed notice.watcher)
      w.emit (.advanced notice (.rearmed answer))
  | .read =>
      let (answer, w) := w.call .confirmed (Store.confirmed notice.ledger)
      w.emit (.advanced notice (.read answer))

/-- Store an entry, and tell the watchers whom it concerns. Answers the id of
the entry. -/
def append (w : Host) (access : Access) (entry : Bytes) : Except StoreError EntryId × Host :=
  match w.send access .append (Store.append entry) with
  | (.error e, w) => (.error e, w)
  | (.ok (id, notices), w) => (.ok id, notices.foldl tellWatcher w)

end Host

end FencedLedger
