import FencedLedger.Entry
import FencedLedger.MasterKey
import FencedLedger.WatchList

/-!
# A stored ledger

What the store keeps of one ledger: its key, its entries, the last entry known
to be confirmed, the confirmation that its writer stated apart from any entry,
whether writing was fenced off, and who waits for the next confirmation.
-/

namespace FencedLedger

/-- What a watcher does when it is told of an advance, beside taking note. -/
inductive Reaction where
  /-- Nothing more. -/
  | record
  /-- Wait for the next advance. -/
  | rearm
  /-- Read the last confirmed entry again. -/
  | read
  deriving DecidableEq, Repr

/-- Somebody who waits for confirmations. Watchers are told apart by label. -/
structure Watcher where
  /-- The name of the watcher. -/
  label : String
  /-- What the watcher does when it is told. -/
  reaction : Reaction
  deriving DecidableEq, Repr

/-- The stored state of a ledger. -/
structure Ledger where
  /-- The key that the ledger was created with. -/
  key : MasterKey
  /-- Whether writing is fenced off. -/
  fenced : Bool
  /-- The last entry known to be confirmed. -/
  confirmed : EntryId
  /-- The confirmation that the writer stated apart from any entry. -/
  explicitConfirmed : Option Bytes
  /-- The entries. -/
  entries : Table EntryId Bytes
  /-- Who waits for the next confirmation. -/
  watches : WatchList Watcher

namespace Ledger

/-- A ledger without entries. -/
def create (key : MasterKey) : Ledger :=
  { key, fenced := false, confirmed := .unset, explicitConfirmed := none, entries := .empty,
    watches := .empty }

/-- Add an entry that is not there yet. When it tells of a later confirmed entry
than is known, the ledger takes that over and releases the watchers who know of
an earlier one. -/
def append (l : Ledger) (id : EntryId) (entry : Bytes) : List Watcher × Ledger :=
  let l := { l with entries := l.entries.insert id entry }
  match Entry.confirmed? entry with
  | none => ([], l)
  | some told =>
      if l.confirmed < told then
        let (ready, watches) := l.watches.takeReady told
        (ready, { l with confirmed := told, watches })
      else ([], l)

/-- The id to look up for a requested one: `-1` asks for the last confirmed. -/
def resolve (l : Ledger) (id : EntryId) : EntryId := if id = .unset then l.confirmed else id

/-- Fence off writing, and whether that was news. -/
def fence (l : Ledger) : Bool × Ledger := (!l.fenced, { l with fenced := true })

/-- Let a watcher wait for an advance beyond `known`, unless there was one. -/
def watch (l : Ledger) (known : EntryId) (watcher : Watcher) : Bool × Ledger :=
  if known < l.confirmed then (false, l)
  else (true, { l with watches := l.watches.register watcher known })

/-- Let a watcher wait no more. -/
def unwatch (l : Ledger) (watcher : Watcher) : Ledger :=
  { l with watches := l.watches.cancel watcher }

/-- The ids of the entries, ascending. -/
def entryIds (l : Ledger) : List EntryId := l.entries.keys.mergeSort fun a b => a ≤ b

end Ledger

end FencedLedger
