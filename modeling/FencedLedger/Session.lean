import FencedLedger.Host.Op

/-!
# Sessions

A session gives names to the objects of a host. A command speaks of objects by
name; it is carried out by operations on the host, and the object that it makes
or finds is bound to a name. Binding a name again lets go of the object that it
stood for, and an object that nothing leads to any more is released.
-/

namespace FencedLedger

/-- A journal as a command describes it. Other journals are given by name. -/
inductive JournalSpec where
  | memory
  | scripted (mode : AckMode)
  | reportThenRefuse (code : ReturnCode) (cause : JournalError)
  | refencing (handle inner : String)

/-- What a session is told to do. -/
inductive Command where
  /-- Send a request to the store. -/
  | request (access : Host.Access) (r : Request)
  | append (access : Host.Access) (entry : Bytes)
  | remove (access : Host.Access) (ledger : LedgerId)
  /-- Observe deletions, and look each ledger up through a cache with a key. -/
  | listen (observer : String) (reopening : Option (String × Bytes × Bool))
  | unlisten (observer : String)
  | storeCounts (ledger : LedgerId)
  | storeDump
  | planFault (call : StoreCall) (fault : Fault)
  | clearFaults
  | callCount (call : StoreCall)
  | createCache (cache : String) (config : Config)
  | dropCache (cache : String)
  | cacheState (cache : String)
  | openWritable (cache : String) (ledger : LedgerId) (presented : Bytes) (replay : Bool)
      (name : String)
  | openReader (cache : String) (ledger : LedgerId) (name : String)
  | recalls (cache : String) (ledger : LedgerId)
  /-- The remembered ledgers among so many from a first one on. -/
  | recallsAmong (cache : String) (first : LedgerId) (count : Nat)
  | tellCache (cache : String) (ledger : LedgerId) (wasFenced : Bool)
  /-- Open, fence and delete so many ledgers from a first one on. -/
  | fenceAndRemove (cache : String) (first : LedgerId) (count : Nat) (presented : Bytes)
      (replay : Bool)
  /-- Open a ledger from so many threads. -/
  | openTogether (cache : String) (ledger : LedgerId) (presented : Bytes) (threads : Nat)
  | createHandle (ledger : LedgerId) (key : Bytes) (ackBeforeSync : Bool) (name : String)
  | createReader (ledger : LedgerId) (name : String)
  | dropHandle (handle : String)
  | handleLedger (handle : String)
  | handleDump (handle : String)
  | isPersisted (handle : String)
  | use (handle : String) (call : HandleCall)
  | fence (handle journal : String) (thread : Thread) (name : String)
  /-- Fence a ledger from so many threads. -/
  | fenceTogether (handle journal : String) (threads : Nat) (wait : Bool)
  | createJournal (journal : String) (spec : JournalSpec)
  | dropJournal (journal : String)
  | log (journal : String) (thread : Thread) (entry : Bytes) (ackBeforeSync : Bool)
      (label : String)
  | journalState (journal : String)
  | shutDown (journal : String)
  | setMode (journal : String) (mode : AckMode)
  | queueFailure (journal : String) (cause : JournalError)
  | completeNext (journal : String) (code : ReturnCode)
  | completeAll (journal : String) (code : ReturnCode)
  | dropNext (journal : String)
  | createOutcome (result : FenceResult) (name : String)
  | peek (outcome : String)
  /-- The end of an append, if it has come. -/
  | await (outcome : String)
  | sameOutcome (outcome other : String)
  /-- Let a thread wait for the end of an append. -/
  | startWait (outcome : String)
  /-- What the waiting thread came back with. -/
  | joinWait (outcome : String)
  | dropOutcome (outcome : String)
  | raise (thread : Thread)
  | isRaised (thread : Thread)
  | takeInterrupt (thread : Thread)
  /-- Take hold of the interrupt flag of a thread. -/
  | holdFlag (thread : Thread) (name : String)
  | raiseHeld (flag : String)
  | isHeldRaised (flag : String)
  | metrics

/-- What a session answers. -/
inductive Reply where
  | answer (a : Answer)
  | text (s : String)
  | ledger (id : LedgerId)
  | ledgers (ids : List LedgerId)
  /-- A handle of a ledger, and the other names of the same handle. -/
  | handle (ledger : LedgerId) (sameAs : List String)
  /-- An outcome, and the other names of the same outcome. -/
  | outcome (o : Outcome) (sameAs : List String)
  | ending (o : Outcome)
  | endings (outcomes : List Outcome)
  | peeked (o : Outcome)
  | storeCounts (ledgers watchers : Nat)
  | cacheState (cache : Cache)
  /-- How many look-ups succeeded, and whether all found the same handle. -/
  | opened (count : Nat) (allSame : Bool)
  /-- Whether all calls answered the same outcome, and the first of them. -/
  | fenced (allSame : Bool) (first : Outcome)
  | journal (j : Journal)
  | metrics (series : List (String × Nat))

/-- A host with names for its objects. -/
structure Session where
  /-- The host. -/
  host : Host
  /-- The named caches. -/
  caches : Table String Nat
  /-- The named handles. -/
  handles : Table String HandleRef
  /-- The named journals. -/
  journals : Table String JournalPath
  /-- The named outcomes. -/
  outcomes : Table String Nat
  /-- The outcome that a thread waits for, by its name when it began. -/
  waiting : Table String Nat
  /-- The named observers. -/
  observers : Table String Nat
  /-- The watchers mentioned so far. -/
  watchers : Table String Watcher
  /-- The named interrupt flags. -/
  flags : Table String Thread

namespace Session

/-- What a step of a session comes to. -/
abbrev Result (α : Type) := Except Failure α × Session

/-- A session with a new host. -/
def start (faults : Option FaultPlan) : Session :=
  { host := .start faults, caches := .empty, handles := .empty, journals := .empty,
    outcomes := .empty, waiting := .empty, observers := .empty, watchers := .empty,
    flags := .empty }

/-! ### Names -/

/-- The other names that are bound to the same object, in order. -/
def sameAs {α : Type} [DecidableEq α] (names : Table String α) (name : String) (x : α) :
    List String :=
  ((names.entries.filter fun b => b.1 ≠ name ∧ b.2 = x).map Prod.fst).mergeSort
    fun a b => !decide (b < a)

/-- Go on with the object that a name is bound to. -/
def withName {α β : Type} (s : Session) (names : Table String α) (name : String)
    (f : α → Result β) : Result β :=
  match names.get? name with
  | none => (.error .unknown, s)
  | some x => f x

/-- Perform an operation on the host. -/
def perform (s : Session) (op : Op) : Result Answer :=
  let (r, host) := s.host.perform op
  (r, { s with host })

/-- Perform an operation and go on with its answer. -/
def performThen {β : Type} (s : Session) (op : Op) (f : Answer → Session → Result β) :
    Result β :=
  match s.perform op with
  | (.error e, s) => (.error e, s)
  | (.ok a, s) => f a s

/-- Perform an operation and pass its answer on. -/
def performReply (s : Session) (op : Op) : Result Reply :=
  s.performThen op fun a s => (.ok (.answer a), s)

/-- Perform an operation that makes or finds an object, and go on with its
number. -/
def performObject {β : Type} (s : Session) (op : Op) (f : Nat → Session → Result β) :
    Result β :=
  s.performThen op fun
    | .object id, s => f id s
    | _, s => (.error .unknown, s)

/-- A reply that leaves the session as it is. -/
def tell (s : Session) (reply : Reply) : Result Reply := (.ok reply, s)

/-- The reply that something is done. -/
def done (s : Session) : Result Reply := s.tell (.answer .done)

/-- The numbers of the journals that a name leads to. -/
def journalsInUse (s : Session) : List Nat :=
  s.journals.entries.flatMap fun b => b.2.journals

/-- The numbers of the caches that a name or an observer leads to. -/
def cachesInUse (s : Session) : List Nat :=
  s.caches.entries.map Prod.snd ++
    s.observers.entries.filterMap fun b =>
      (s.host.observers.get? b.2).bind fun o => o.reopening.map Reopening.cache

/-- Release the journals and caches that nothing leads to. -/
def collect (s : Session) : Session :=
  let journals := (List.range s.host.journals.next).filter fun id =>
    s.host.journals.holds id && !s.journalsInUse.contains id
  let caches := (List.range s.host.caches.next).filter fun id =>
    s.host.caches.holds id && !s.cachesInUse.contains id
  let s := journals.foldl (fun s id => (s.perform (.releaseJournal id)).2) s
  caches.foldl (fun s id => (s.perform (.releaseCache id)).2) s

/-- The watcher of a label. The first mention decides how it reacts. -/
def watcherOf (s : Session) (w : Watcher) : Watcher × Session :=
  match s.watchers.get? w.label with
  | some known => (known, s)
  | none => (w, { s with watchers := s.watchers.insert w.label w })

/-- A request with the watcher that its label stands for. -/
def requestOf (s : Session) : Request → Request × Session
  | .watch ledger known watcher =>
      let (watcher, s) := s.watcherOf watcher
      (.watch ledger known watcher, s)
  | .unwatch ledger watcher =>
      let (watcher, s) := s.watcherOf watcher
      (.unwatch ledger watcher, s)
  | r => (r, s)

/-- A call on a handle with the watcher that its label stands for. -/
def callOf (s : Session) : HandleCall → HandleCall × Session
  | .watch known watcher =>
      let (watcher, s) := s.watcherOf watcher
      (.watch known watcher, s)
  | .unwatch watcher =>
      let (watcher, s) := s.watcherOf watcher
      (.unwatch watcher, s)
  | call => (call, s)

/-! ### Handles and outcomes -/

/-- Bind a name to a handle. -/
def bindHandle (s : Session) (name : String) (ref : HandleRef) : Result Reply :=
  let s := { s with handles := s.handles.insert name ref }
  s.tell (.handle (s.host.ledgerOf ref) (sameAs s.handles name ref))

/-- Bind a name to an outcome. -/
def bindOutcome (s : Session) (name : String) (o : Nat) : Result Reply :=
  let s := { s with outcomes := s.outcomes.insert name o }
  s.tell (.outcome (s.host.outcomeAt o) (sameAs s.outcomes name o))

/-- The ledgers from a first one on. -/
def ledgersFrom (first : LedgerId) (count : Nat) : List LedgerId :=
  (List.range count).map fun i => ⟨first.value + Int64.ofNat i⟩

/-- Open, fence and delete ledgers, up to the first failure. -/
def fenceAndRemove (s : Session) (cache : Nat) (presented : Bytes) (replay : Bool) :
    List LedgerId → Result Reply
  | [] => s.done
  | ledger :: ledgers =>
      let opened := s.performObject (.openWritable cache ledger presented replay) fun h s =>
        s.performThen (.use (.writable h) .fence) fun _ s =>
          match s.perform (.remove .planned ledger) with
          | (.error (.store e), s) => (.error (.handle (.store e)), s)
          | r => r
      match opened with
      | (.error e, s) => (.error e, s)
      | (.ok _, s) => s.fenceAndRemove cache presented replay ledgers

/-- Open a ledger so many times. Answers the handles found. -/
def openTogether (s : Session) (cache : Nat) (ledger : LedgerId) (presented : Bytes) :
    (times : Nat) → List Nat × Session
  | 0 => ([], s)
  | times + 1 =>
      match s.perform (.openWritable cache ledger presented false) with
      | (.ok (.object h), s) =>
          let (found, s) := s.openTogether cache ledger presented times
          (h :: found, s)
      | (_, s) => s.openTogether cache ledger presented times

/-- Fence a ledger so many times, each time on a worker thread of its own. Every
call is made. Answers the outcomes by number, or the first failure. -/
def fenceTogether (s : Session) (ref : HandleRef) (path : JournalPath) :
    (times : Nat) → Result (List Nat)
  | 0 => (.ok [], s)
  | times + 1 =>
      let (first, s) : Result Nat := s.performObject .startWorker fun worker s =>
        s.performObject (.fence ref path (.worker worker)) fun o s => (.ok o, s)
      let (others, s) := s.fenceTogether ref path times
      (first.bind fun o => others.map (o :: ·), s)

/-- Whether all numbers of a list are the same. -/
def allSame : List Nat → Bool
  | [] => true
  | x :: xs => xs.all (· == x)

/-! ### Journals -/

/-- The path of a described journal, which is made if it has a state. -/
def pathOf (s : Session) : JournalSpec → Result JournalPath
  | .memory => s.performObject .createMemoryJournal fun id s => (.ok (.journal id), s)
  | .scripted mode =>
      s.performObject (.createScriptedJournal mode) fun id s => (.ok (.journal id), s)
  | .reportThenRefuse code cause => (.ok (.reportThenRefuse code cause), s)
  | .refencing handle inner =>
      s.withName s.journals inner fun path =>
        s.withName s.handles handle fun ref => (.ok (.refencing ref path), s)

/-- Go on with the number of a journal that has a state. -/
def withJournal (s : Session) (name : String) (f : Nat → Result Reply) : Result Reply :=
  s.withName s.journals name fun
    | .journal id => f id
    | _ => (.error .unknown, s)

/-! ### Commands -/

/-- Carry out a command. -/
def obey (s : Session) : Command → Result Reply
  | .request access r =>
      let (r, s) := s.requestOf r
      s.performReply (.request access r)
  | .append access entry => s.performReply (.append access entry)
  | .remove access ledger => s.performReply (.remove access ledger)
  | .listen name reopening =>
      let listen (reopening : Option Reopening) : Result Reply :=
        s.performObject (.observe ⟨name, reopening⟩) fun id s =>
          let s := match s.observers.get? name with
            | none => s
            | some old => (s.perform (.unobserve old)).2
          ({ s with observers := s.observers.insert name id }).collect.done
      match reopening with
      | none => listen none
      | some (cache, key, replay) =>
          s.withName s.caches cache fun c => listen (some ⟨c, key, replay⟩)
  | .unlisten name =>
      match s.observers.get? name with
      | none => s.tell (.answer (.flag false))
      | some id =>
          let s := (s.perform (.unobserve id)).2
          ({ s with observers := s.observers.erase name }).collect.tell (.answer (.flag true))
  | .storeCounts ledger =>
      s.tell (.storeCounts s.host.store.ledgers.size (s.host.store.watcherCount ledger))
  | .storeDump =>
      s.tell (.text (match s.host.faults with
        | none => s.host.store.dump
        | some plan => plan.dump))
  | .planFault call fault => s.performReply (.planFault call fault)
  | .clearFaults => s.performReply .clearFaults
  | .callCount call =>
      s.tell (.answer (.count (match s.host.faults with
        | none => 0
        | some plan => plan.count call)))
  | .createCache name config =>
      s.performObject (.createCache config) fun id s =>
        ({ s with caches := s.caches.insert name id }).collect.done
  | .dropCache name =>
      s.withName s.caches name fun _ => ({ s with caches := s.caches.erase name }).collect.done
  | .cacheState name => s.withName s.caches name fun c => s.tell (.cacheState (s.host.cacheAt c))
  | .openWritable cache ledger presented replay name =>
      s.withName s.caches cache fun c =>
        s.performObject (.openWritable c ledger presented replay) fun h s =>
          s.bindHandle name (.writable h)
  | .openReader cache ledger name =>
      s.withName s.caches cache fun c =>
        s.performObject (.openReader c ledger) fun r s => s.bindHandle name (.reader r)
  | .recalls cache ledger =>
      s.withName s.caches cache fun c =>
        s.tell (.answer (.flag ((s.host.cacheAt c).recalls s.host.now ledger)))
  | .recallsAmong cache first count =>
      s.withName s.caches cache fun c =>
        s.tell (.ledgers ((ledgersFrom first count).filter fun ledger =>
          (s.host.cacheAt c).recalls s.host.now ledger))
  | .tellCache cache ledger wasFenced =>
      s.withName s.caches cache fun c => s.performReply (.tellCache c ledger wasFenced)
  | .fenceAndRemove cache first count presented replay =>
      s.withName s.caches cache fun c =>
        s.fenceAndRemove c presented replay (ledgersFrom first count)
  | .openTogether cache ledger presented threads =>
      s.withName s.caches cache fun c =>
        let (found, s) := s.openTogether c ledger presented threads
        s.tell (.opened found.length (allSame found))
  | .createHandle ledger key ackBeforeSync name =>
      s.performObject (.createHandle ledger key ackBeforeSync) fun h s =>
        s.bindHandle name (.writable h)
  | .createReader ledger name =>
      s.performObject (.createReader ledger) fun r s => s.bindHandle name (.reader r)
  | .dropHandle name =>
      ({ s with handles := s.handles.erase name }).tell
        (.answer (.flag (s.handles.contains name)))
  | .handleLedger name =>
      s.withName s.handles name fun ref => s.tell (.ledger (s.host.ledgerOf ref))
  | .handleDump name =>
      s.withName s.handles name fun
        | .writable h => s.tell (.text (s.host.handleAt h).dump)
        | .reader r => s.tell (.text (Handle.dumpReader (s.host.ledgerOf (.reader r))))
  | .isPersisted name =>
      s.withName s.handles name fun
        | .writable h => s.tell (.answer (.flag (s.host.handleAt h).persisted))
        | .reader _ => (.error .unknown, s)
  | .use name call =>
      s.withName s.handles name fun ref =>
        let (call, s) := s.callOf call
        s.performReply (.use ref call)
  | .fence handle journal thread name =>
      s.withName s.handles handle fun ref =>
        s.withName s.journals journal fun path =>
          s.performObject (.fence ref path thread) fun o s => s.bindOutcome name o
  | .fenceTogether handle journal threads wait =>
      s.withName s.handles handle fun ref =>
        s.withName s.journals journal fun path =>
          match s.fenceTogether ref path threads with
          | (.error e, s) => (.error e, s)
          | (.ok outcomes, s) =>
              match wait, outcomes with
              | true, _ => s.tell (.endings (outcomes.map s.host.outcomeAt))
              | false, [] => (.error .unknown, s)
              | false, o :: _ => s.tell (.fenced (allSame outcomes) (s.host.outcomeAt o))
  | .createJournal name spec =>
      match s.pathOf spec with
      | (.error e, s) => (.error e, s)
      | (.ok path, s) => ({ s with journals := s.journals.insert name path }).collect.done
  | .dropJournal name =>
      s.withName s.journals name fun _ =>
        ({ s with journals := s.journals.erase name }).collect.done
  | .log name thread entry ackBeforeSync label =>
      s.withName s.journals name fun path =>
        s.performReply (.log path thread entry ackBeforeSync label)
  | .journalState name =>
      s.withJournal name fun id =>
        match s.host.journals.get? id with
        | none => (.error .unknown, s)
        | some journal => s.tell (.journal journal)
  | .shutDown name => s.withJournal name fun id => s.performReply (.shutDown id)
  | .setMode name mode => s.withJournal name fun id => s.performReply (.setMode id mode)
  | .queueFailure name cause =>
      s.withJournal name fun id => s.performReply (.queueFailure id cause)
  | .completeNext name code => s.withJournal name fun id => s.performReply (.completeNext id code)
  | .completeAll name code => s.withJournal name fun id => s.performReply (.completeAll id code)
  | .dropNext name => s.withJournal name fun id => s.performReply (.dropNext id)
  | .createOutcome result name =>
      s.performObject (.createOutcome result) fun o s => s.bindOutcome name o
  | .peek name => s.withName s.outcomes name fun o => s.tell (.peeked (s.host.outcomeAt o))
  | .await name => s.withName s.outcomes name fun o => s.tell (.ending (s.host.outcomeAt o))
  | .sameOutcome name other =>
      s.withName s.outcomes name fun o =>
        s.withName s.outcomes other fun o' => s.tell (.answer (.flag (o == o')))
  | .startWait name =>
      s.withName s.outcomes name fun o =>
        ({ s with waiting := s.waiting.insert name o }).done
  | .joinWait name =>
      s.withName s.waiting name fun o =>
        ({ s with waiting := s.waiting.erase name }).tell (.ending (s.host.outcomeAt o))
  | .dropOutcome name =>
      s.withName s.outcomes name fun _ =>
        ({ s with outcomes := s.outcomes.erase name }).done
  | .raise thread => s.performReply (.raise thread)
  | .isRaised thread => s.tell (.answer (.flag (s.host.interrupts.isRaised thread)))
  | .takeInterrupt thread => s.performReply (.takeInterrupt thread)
  | .holdFlag thread name => ({ s with flags := s.flags.insert name thread }).done
  | .raiseHeld name => s.withName s.flags name fun thread => s.performReply (.raise thread)
  | .isHeldRaised name =>
      s.withName s.flags name fun thread =>
        s.tell (.answer (.flag (s.host.interrupts.isRaised thread)))
  | .metrics => s.tell (.metrics s.host.metrics.series)

/-- What a command comes to, and the events that it raised. -/
structure Step where
  /-- The reply, or why there is none. -/
  result : Except Failure Reply
  /-- The events, in the order in which they were raised. -/
  events : List Event

/-- Carry out a command with an empty list of events. -/
def step (s : Session) (command : Command) : Step × Session :=
  let (result, s) := ({ s with host := { s.host with events := [] } }).obey command
  (⟨result, s.host.events⟩, s)

/-- Carry out commands one after the other. -/
def run (s : Session) : List Command → List Step
  | [] => []
  | command :: commands =>
      let (step, s) := s.step command
      step :: s.run commands

end Session

end FencedLedger
