import FencedLedger.Error
import FencedLedger.Ledger

/-!
# The store

The store holds ledgers by id and knows who wants to hear of their deletion. An
action on it answers a value together with the store behind it, or an error:
an action that fails has no store to answer, so it changes nothing.

Telling watchers of a confirmation and subscribers of a deletion is not the
store's work. The actions answer whom to tell, and the caller does so once the
store has changed.
-/

namespace FencedLedger

/-- Who wants to hear of deletions. -/
inductive Subscriber where
  /-- The cache with the given number. -/
  | cache (id : Nat)
  /-- The observer with the given number. -/
  | observer (id : Nat)
  deriving DecidableEq, Repr

/-- The stored ledgers and the subscribers. -/
structure Store where
  /-- The ledgers by id. -/
  ledgers : Table LedgerId Ledger
  /-- The subscribers, in order of subscription. Some may be gone. -/
  subscribers : List Subscriber

/-- A request to the store: an answer and the store behind it, or an error. -/
abbrev StoreAction (α : Type) := Store → Except StoreError (α × Store)

/-- A watcher to be told that a ledger's last confirmed entry advanced. -/
structure Notice where
  watcher : Watcher
  ledger : LedgerId
  confirmed : EntryId
  deriving DecidableEq, Repr

namespace Store

/-- The store without ledgers. -/
def empty : Store := ⟨.empty, []⟩

instance : Inhabited Store := ⟨empty⟩

/-- Look at a ledger. -/
def look {α : Type} (id : LedgerId) (f : Ledger → α) : StoreAction α := fun s =>
  match s.ledgers.get? id with
  | none => .error (.noLedger id)
  | some l => .ok (f l, s)

/-- Change a ledger. -/
def change {α : Type} (id : LedgerId) (f : Ledger → α × Ledger) : StoreAction α := fun s =>
  match s.ledgers.get? id with
  | none => .error (.noLedger id)
  | some l => .ok ((f l).1, { s with ledgers := s.ledgers.insert id (f l).2 })

/-- Create a ledger under a key. A ledger that is there keeps its key, and only
the same key is accepted again. -/
def bindKey (id : LedgerId) (key : MasterKey) : StoreAction Unit := fun s =>
  match s.ledgers.get? id with
  | none => .ok ((), { s with ledgers := s.ledgers.insert id (.create key) })
  | some l =>
      if l.key.accepts key.bytes then .ok ((), s)
      else .error (.rejected ("master key mismatch for " ++ id.text))

/-- The key of a ledger. -/
def key (id : LedgerId) : StoreAction MasterKey := look id Ledger.key

/-- Whether the store holds a ledger. -/
def holds (id : LedgerId) : StoreAction Bool := fun s => .ok (s.ledgers.contains id, s)

/-- Store an entry in the ledger that it names, under the id that it names.
Answers the id and the watchers to tell. -/
def append (entry : Bytes) : StoreAction (EntryId × List Notice) := fun s =>
  match Entry.readHeader entry with
  | .error short => .error (.malformedEntry short)
  | .ok header =>
      if header.isMeta then
        .error (.rejected (header.entry.text ++ " is reserved for meta entries"))
      else
        match s.ledgers.get? header.ledger with
        | none => .error (.noLedger header.ledger)
        | some l =>
            if l.entries.contains header.entry then
              .error (.duplicateEntry header.ledger header.entry)
            else
              let (ready, l) := l.append header.entry entry
              let notices := ready.map fun w => ⟨w, header.ledger, l.confirmed⟩
              .ok ((header.entry, notices),
                { s with ledgers := s.ledgers.insert header.ledger l })

/-- The bytes of an entry. -/
def entry (id : LedgerId) (entry : EntryId) : StoreAction Bytes := fun s =>
  match s.ledgers.get? id with
  | none => .error (.noLedger id)
  | some l =>
      match l.entries.get? (l.resolve entry) with
      | none => .error (.noEntry id (l.resolve entry))
      | some bytes => .ok (bytes, s)

/-- Fence off writing to a ledger. Answers whether that was news. -/
def fence (id : LedgerId) : StoreAction Bool := change id Ledger.fence

/-- Whether writing to a ledger is fenced off. -/
def isFenced (id : LedgerId) : StoreAction Bool := look id Ledger.fenced

/-- Note the confirmation that a writer states apart from any entry. -/
def noteConfirmed (id : LedgerId) (stated : Bytes) : StoreAction Unit :=
  change id fun l => ((), { l with explicitConfirmed := some stated })

/-- The confirmation that a writer stated apart from any entry. -/
def notedConfirmed (id : LedgerId) : StoreAction (Option Bytes) :=
  look id Ledger.explicitConfirmed

/-- The last entry of a ledger known to be confirmed. -/
def confirmed (id : LedgerId) : StoreAction EntryId := look id Ledger.confirmed

/-- Let a watcher wait for an advance beyond `known`. Answers `false`, and lets
nobody wait, when the ledger is beyond it. -/
def watch (id : LedgerId) (known : EntryId) (watcher : Watcher) : StoreAction Bool :=
  change id fun l => l.watch known watcher

/-- Let a watcher wait no more. Nobody waits on a ledger that is not there. -/
def unwatch (id : LedgerId) (watcher : Watcher) : StoreAction Unit := fun s =>
  match s.ledgers.get? id with
  | none => .ok ((), s)
  | some l => .ok ((), { s with ledgers := s.ledgers.insert id (l.unwatch watcher) })

/-- The ids of the entries of a ledger, ascending. -/
def entryIds (id : LedgerId) : StoreAction (List EntryId) := look id Ledger.entryIds

/-- Remove a ledger and forget the subscribers that are gone. Answers whether
the ledger was fenced, and the subscribers to tell in order of subscription. -/
def remove (present : Subscriber → Bool) (id : LedgerId) :
    StoreAction (Bool × List Subscriber) := fun s =>
  match s.ledgers.get? id with
  | none => .error (.noLedger id)
  | some l =>
      let subscribers := s.subscribers.filter present
      .ok ((l.fenced, subscribers), ⟨s.ledgers.erase id, subscribers⟩)

/-- Let somebody hear of deletions from now on. -/
def subscribe (s : Store) (who : Subscriber) : Store :=
  { s with subscribers := s.subscribers ++ [who] }

/-- The number of watchers of a ledger. -/
def watcherCount (s : Store) (id : LedgerId) : Nat :=
  match s.ledgers.get? id with
  | none => 0
  | some l => l.watches.size

/-- The store as diagnostic dumps show it. -/
def dump (s : Store) : String :=
  "InMemoryLedgerStorage \x7b ledgers: " ++ toString s.ledgers.size ++ ", listeners: " ++
    toString s.subscribers.length ++ " \x7d"

end Store

end FencedLedger
