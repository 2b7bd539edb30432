import FencedLedger.Ident
import FencedLedger.Table

/-!
# Watch lists

Who waits for the last confirmed entry of a ledger to advance. Each watcher is
listed once, in order of first registration, with the entry beyond which it
wants to hear. The watchers that an advance concerns leave the list.
-/

namespace FencedLedger

/-- Watchers, each with the last confirmed entry that it knows of. -/
structure WatchList (ω : Type) where
  /-- What each watcher knows of. -/
  known : Table ω EntryId

namespace WatchList

variable {ω : Type}

/-- The list of nobody. -/
def empty : WatchList ω := ⟨.empty⟩

/-- The number of watchers. -/
def size (l : WatchList ω) : Nat := l.known.size

/-- Split the list at an advance to `confirmed`: the watchers that know of an
earlier entry, in list order, and the list of the others. -/
def takeReady (l : WatchList ω) (confirmed : EntryId) : List ω × WatchList ω :=
  ((l.known.entries.filter fun b => b.2 < confirmed).map Prod.fst,
    ⟨l.known.filter fun _ known => !decide (known < confirmed)⟩)

/-- The list as diagnostic dumps show it. -/
def dump (l : WatchList ω) : String := "WatcherSet \x7b len: " ++ toString l.size ++ " \x7d"

variable [DecidableEq ω]

/-- Let a watcher hear of advances beyond `known`. One that is listed keeps its
place. -/
def register (l : WatchList ω) (watcher : ω) (known : EntryId) : WatchList ω :=
  ⟨l.known.insert watcher known⟩

/-- Whether a watcher is listed. -/
def contains (l : WatchList ω) (watcher : ω) : Bool := l.known.contains watcher

/-- Strike a watcher from the list. -/
def cancel (l : WatchList ω) (watcher : ω) : WatchList ω := ⟨l.known.erase watcher⟩

end WatchList

end FencedLedger
