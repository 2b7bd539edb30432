import FencedLedger.Arena
import FencedLedger.Cache
import FencedLedger.FaultPlan
import FencedLedger.Handle
import FencedLedger.Interrupts
import FencedLedger.Journal
import FencedLedger.Metrics
import FencedLedger.Outcome
import FencedLedger.Store

/-!
# The host

The state of a host of ledgers: its store, the objects that callers hold, the
interrupt flags of their threads, and what was counted. Objects are known by
number. Whatever runs inside a call, such as watchers, observers and completion
reports, raises an event when it is done.

Every access to the store of the host goes through `call`, which asks the fault
plan first when the host has one; `ask` goes past the plan.
-/

namespace FencedLedger

/-- A look-up that an observer of deletions makes when it is told. -/
structure Reopening where
  /-- The cache that is asked. -/
  cache : Nat
  /-- The key that is presented. -/
  key : Bytes
  /-- Whether the look-up is part of a journal replay. -/
  replay : Bool
  deriving DecidableEq, Repr

/-- Somebody who observes deletions. -/
structure Observer where
  /-- The name of the observer. -/
  label : String
  /-- The look-up that the observer makes, if any. -/
  reopening : Option Reopening
  deriving DecidableEq, Repr, Inhabited

/-- What a watcher did when it was told of an advance. -/
inductive Reacted where
  /-- Nothing more. -/
  | recorded
  /-- It waited for the next advance. -/
  | rearmed (answer : Except StoreError Bool)
  /-- It read the last confirmed entry. -/
  | read (answer : Except StoreError EntryId)

/-- What ran inside a call. -/
inductive Event where
  /-- A watcher was told of an advance. -/
  | advanced (notice : Notice) (reacted : Reacted)
  /-- An observer was told of a deletion. It saw whether the store held the
  ledger, and may have looked it up. -/
  | deleted (observer : String) (ledger : LedgerId) (wasFenced held : Bool)
      (reopened : Option (Except HandleError Unit))
  /-- A journal fenced a handle before it took an entry. -/
  | refenced (answer : Except HandleError Outcome)
  /-- An append ended. -/
  | completed (label : String) (report : Completion)

/-- The state of a host. -/
structure Host where
  /-- The stored ledgers. -/
  store : Store
  /-- The faults planned for calls on the store. -/
  faults : Option FaultPlan
  /-- The writable handles made so far. -/
  handles : Arena Handle
  /-- The readers made so far, by the ledger that each reads. -/
  readers : Arena LedgerId
  /-- The outcomes of fence markers. -/
  outcomes : Arena Outcome
  /-- The journals that are held by somebody. -/
  journals : Arena Journal
  /-- The caches that are held by somebody. -/
  caches : Arena Cache
  /-- The observers of deletions that are held by somebody. -/
  observers : Arena Observer
  /-- The raised interrupt flags. -/
  interrupts : Interrupts
  /-- What was counted. -/
  metrics : Metrics
  /-- The current instant, in nanoseconds. -/
  now : Nat
  /-- The number of worker threads that were started. -/
  workers : Nat
  /-- The events of the current call, oldest first. -/
  events : List Event

namespace Host

/-- A host before any call, with or without a fault plan. -/
def start (faults : Option FaultPlan) : Host :=
  { store := .empty, faults, handles := .empty, readers := .empty, outcomes := .empty,
    journals := .empty, caches := .empty, observers := .empty, interrupts := .empty,
    metrics := .empty, now := 0, workers := 0, events := [] }

/-! ### Objects -/

/-- The handle with the given number. -/
def handleAt (w : Host) (h : Nat) : Handle := (w.handles.get? h).getD default

theorem handleAt_of_get? {w : Host} {h : Nat} {x : Handle} (hx : w.handles.get? h = some x) :
    w.handleAt h = x := by
  rw [handleAt, hx, Option.getD_some]

/-- The ledger of a handle. -/
def ledgerOf (w : Host) : HandleRef → LedgerId
  | .writable h => (w.handleAt h).ledger
  | .reader r => (w.readers.get? r).getD default

/-- Whether the host holds a handle. -/
def knowsHandle (w : Host) : HandleRef → Bool
  | .writable h => w.handles.holds h
  | .reader r => w.readers.holds r

/-- The outcome with the given number. -/
def outcomeAt (w : Host) (o : Nat) : Outcome := (w.outcomes.get? o).getD default

/-- The cache with the given number. -/
def cacheAt (w : Host) (c : Nat) : Cache := (w.caches.get? c).getD default

theorem cacheAt_of_get? {w : Host} {c : Nat} {x : Cache} (hx : w.caches.get? c = some x) :
    w.cacheAt c = x := by
  rw [cacheAt, hx, Option.getD_some]

/-- Change a handle. -/
def modifyHandle (w : Host) (h : Nat) (f : Handle → Handle) : Host :=
  { w with handles := w.handles.modify h f }

/-- Change a cache. -/
def modifyCache (w : Host) (c : Nat) (f : Cache → Cache) : Host :=
  { w with caches := w.caches.modify c f }

/-- Add an outcome. Answers its number. -/
def addOutcome (w : Host) (o : Outcome) : Nat × Host :=
  (w.outcomes.next, { w with outcomes := w.outcomes.add o })

/-- Settle an outcome. The first end of an append counts. -/
def settle (w : Host) (o : Nat) (r : FenceResult) : Host :=
  { w with outcomes := w.outcomes.modify o (Outcome.settle · r) }

/-- Raise an event. -/
def emit (w : Host) (e : Event) : Host := { w with events := w.events ++ [e] }

/-- Increment a counter. -/
def count (w : Host) (c : Counter) (n : Nat) : Host :=
  { w with metrics := w.metrics.add c n }

/-- Set a gauge. -/
def gauge (w : Host) (kind : HandleKind) (value : Nat) : Host :=
  { w with metrics := w.metrics.set kind value }

/-- Let somebody hear of deletions from now on. -/
def subscribe (w : Host) (who : Subscriber) : Host :=
  { w with store := w.store.subscribe who }

/-- Whether a subscriber is still there. -/
def isPresent (w : Host) : Subscriber → Bool
  | .cache c => w.caches.holds c
  | .observer o => w.observers.holds o

/-! ### The store -/

/-- Which way a request takes to the store. -/
inductive Access where
  /-- By the fault plan, if there is one. -/
  | planned
  /-- Past the fault plan. -/
  | direct
  deriving DecidableEq, Repr

/-- Let the fault plan answer a call. -/
def enter (w : Host) (call : StoreCall) : Option StoreError × Host :=
  match w.faults with
  | none => (none, w)
  | some plan =>
      let (fault, plan) := plan.enter call
      (fault, { w with faults := some plan })

/-- Ask the store, past the fault plan. -/
def ask {α : Type} (w : Host) (action : StoreAction α) : Except StoreError α × Host :=
  match action w.store with
  | .error e => (.error e, w)
  | .ok (a, store) => (.ok a, { w with store })

/-- Call the store. A planned fault answers in its place. -/
def call {α : Type} (w : Host) (c : StoreCall) (action : StoreAction α) :
    Except StoreError α × Host :=
  match w.enter c with
  | (some e, w) => (.error e, w)
  | (none, w) => w.ask action

/-- Send a request to the store on the given way. -/
def send {α : Type} (w : Host) (access : Access) (c : StoreCall) (action : StoreAction α) :
    Except StoreError α × Host :=
  match access with
  | .planned => w.call c action
  | .direct => w.ask action

end Host

end FencedLedger
