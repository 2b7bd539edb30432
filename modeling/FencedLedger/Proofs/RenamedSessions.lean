import FencedLedger.Proofs.RenamedHosts
import FencedLedger.Proofs.SeparateLedgers

/-!
# Sessions with other keys

A session that is given the same commands with renamed keys does what it did: it makes
and finds the same objects, replies the same and raises the same events. A command that
asks for a stored key gets its name. The dump of a handle shows the length of its key, so
it stays the same only if names are as long as what they stand for.
-/

namespace FencedLedger

variable {f : Bytes → Bytes}

/-- The reply with its answer replaced, if it is one. -/
def Reply.mapAnswer (g : Answer → Answer) : Reply → Reply
  | .answer a => .answer (g a)
  | reply => reply

namespace Command

/-- The command with the key renamed that it supplies, if it supplies one. -/
def rename (f : Bytes → Bytes) : Command → Command
  | .request access r => .request access (r.rename f)
  | .listen name reopening => .listen name (reopening.map fun r => (r.1, f r.2.1, r.2.2))
  | .openWritable cache l presented replay name => .openWritable cache l (f presented) replay name
  | .fenceAndRemove cache first count presented replay =>
      .fenceAndRemove cache first count (f presented) replay
  | .openTogether cache l presented threads => .openTogether cache l (f presented) threads
  | .createHandle l secret ack name => .createHandle l (f secret) ack name
  | .use name call => .use name (call.rename f)
  | command => command

/-- The reply to a command with the key renamed that it tells, if it tells one. -/
def reading (f : Bytes → Bytes) : Command → Reply → Reply
  | .request _ r => Reply.mapAnswer (r.reading f)
  | _ => id

/-- What a command comes to, with the key renamed that its reply tells. -/
def retell (f : Bytes → Bytes) (command : Command) (step : Session.Step) : Session.Step :=
  { step with result := step.result.map (command.reading f) }

/-- Whether a command asks for the dump of a handle. -/
def showsHandle : Command → Bool
  | .handleDump _ => true
  | _ => false

/-- The key that a command supplies. -/
def key? : Command → Option Bytes
  | .request _ (.bindKey _ secret) | .createHandle _ secret _ _ => some secret
  | .listen _ reopening => reopening.map fun r => r.2.1
  | .openWritable _ _ presented _ _ | .fenceAndRemove _ _ _ presented _
  | .openTogether _ _ presented _ | .use _ (.access presented) => some presented
  | _ => none

/-- Only the key that a command presents is renamed. -/
theorem rename_congr {g : Bytes → Bytes} {command : Command}
    (h : ∀ k, command.key? = some k → f k = g k) : command.rename f = command.rename g := by
  cases command with
  | request access r =>
      cases r with
      | bindKey l secret => exact congrArg (fun k => request access (.bindKey l k)) (h secret rfl)
      | _ => rfl
  | listen name reopening =>
      rcases reopening with _ | ⟨cache, secret, replay⟩
      · rfl
      · exact congrArg (fun k => listen name (some (cache, k, replay))) (h secret rfl)
  | openWritable cache l presented replay name =>
      exact congrArg (fun k => openWritable cache l k replay name) (h presented rfl)
  | fenceAndRemove cache first count presented replay =>
      exact congrArg (fun k => fenceAndRemove cache first count k replay) (h presented rfl)
  | openTogether cache l presented threads =>
      exact congrArg (fun k => openTogether cache l k threads) (h presented rfl)
  | createHandle l secret ack name =>
      exact congrArg (fun k => createHandle l k ack name) (h secret rfl)
  | use name call =>
      cases call with
      | access presented => exact congrArg (fun k => use name (.access k)) (h presented rfl)
      | _ => rfl
  | _ => rfl

theorem rename_id (command : Command) : command.rename id = command := by
  cases command with
  | request access r => cases r <;> rfl
  | listen name reopening => cases reopening <;> rfl
  | use name call => cases call <;> rfl
  | _ => rfl

end Command

namespace Session

/-- The session with every key renamed that its host holds. -/
def rename (f : Bytes → Bytes) (s : Session) : Session := { s with host := s.host.rename f }

theorem perform_blind (hf : KeyRenaming f) (s : Session) (op : Op) (hop : op.reading f = id) :
    (s.rename f).perform (op.rename f) = Prod.map id (rename f) (s.perform op) :=
  congrArg (fun r => (r.1, ({ s with host := r.2 } : Session))) (s.host.perform_blind hf hop)

/-- Whatever is done with the answer of an operation, it is done alike under the names. -/
theorem performThen_rename {β : Type} (hf : KeyRenaming f) (s : Session) (op : Op)
    (hop : op.reading f = id) {k k' : Answer → Session → Result β}
    (hk : ∀ a s, k' a (rename f s) = Prod.map id (rename f) (k a s)) :
    (s.rename f).performThen (op.rename f) k' = Prod.map id (rename f) (s.performThen op k) := by
  unfold performThen
  rw [perform_blind hf s op hop]
  rcases s.perform op with ⟨e | a, s⟩
  · rfl
  · exact hk a s

theorem performReply_blind (hf : KeyRenaming f) (s : Session) (op : Op)
    (hop : op.reading f = id) :
    (s.rename f).performReply (op.rename f) = Prod.map id (rename f) (s.performReply op) :=
  performThen_rename hf s op hop fun _ _ => rfl

/-- An operation is replied to alike, but for the request for a key. -/
theorem performReply_rename (hf : KeyRenaming f) (s : Session) (op : Op) :
    (s.rename f).performReply (op.rename f) =
      Prod.map (Except.map (Reply.mapAnswer (op.reading f))) (rename f) (s.performReply op) := by
  have hperform := s.host.perform_rename hf op
  rw [performReply_eq, performReply_eq]
  unfold rename
  dsimp only
  rw [hperform]
  rcases s.host.perform op with ⟨e | a, w⟩ <;> rfl

theorem performObject_rename {β : Type} (hf : KeyRenaming f) (s : Session) (op : Op)
    (hop : op.reading f = id) {k k' : Nat → Session → Result β}
    (hk : ∀ n s, k' n (rename f s) = Prod.map id (rename f) (k n s)) :
    (s.rename f).performObject (op.rename f) k' =
      Prod.map id (rename f) (s.performObject op k) := by
  refine performThen_rename hf s op hop fun a s => ?_
  cases a with
  | object n => exact hk n s
  | _ => rfl

theorem withName_rename {α β : Type} (s : Session) {names : Table String α} {name : String}
    {k k' : α → Result β} (hk : ∀ x, k' x = Prod.map id (rename f) (k x)) :
    (s.rename f).withName names name k' = Prod.map id (rename f) (s.withName names name k) := by
  unfold withName
  cases names.get? name with
  | none => rfl
  | some x => exact hk x

theorem bindHandle_rename (s : Session) (name : String) (ref : HandleRef) :
    (s.rename f).bindHandle name ref = Prod.map id (rename f) (s.bindHandle name ref) := by
  have hledger : (s.rename f).host.ledgerOf ref = s.host.ledgerOf ref :=
    s.host.ledgerOf_rename ref
  unfold bindHandle
  dsimp only
  rw [hledger]
  rfl

/-- Which caches are in use does not depend on keys. -/
theorem cachesInUse_rename (s : Session) : (s.rename f).cachesInUse = s.cachesInUse := by
  unfold cachesInUse rename
  dsimp only
  refine congrArg (_ ++ ·) (congrArg (List.filterMap · s.observers.entries) ?_)
  funext b
  change (((s.host.observers.map (Observer.rename f)).get? b.2).bind _) = _
  rw [Arena.get?_map]
  rcases s.host.observers.get? b.2 with _ | ⟨label, _ | r⟩ <;> rfl

/-- Objects that are let go of one after the other are let go of alike. -/
theorem releases_rename (hf : KeyRenaming f) (s : Session) {op : Nat → Op}
    (hop : ∀ j, (op j).rename f = op j ∧ (op j).reading f = id) (js : List Nat) :
    js.foldl (fun s j => (s.perform (op j)).2) (s.rename f) =
      (js.foldl (fun s j => (s.perform (op j)).2) s).rename f := by
  induction js generalizing s with
  | nil => rfl
  | cons j js ih =>
      have hperform := perform_blind hf s (op j) (hop j).2
      rw [(hop j).1] at hperform
      rw [List.foldl_cons, hperform]
      exact ih _

theorem collect_rename (hf : KeyRenaming f) (s : Session) :
    (s.rename f).collect = s.collect.rename f := by
  unfold collect
  rw [cachesInUse_rename]
  refine (congrArg (List.foldl _ · _) (releases_rename hf s (fun _ => ⟨rfl, rfl⟩) _)).trans ?_
  exact releases_rename hf _ (fun _ => ⟨rfl, rfl⟩) _

theorem watcherOf_rename (s : Session) (who : Watcher) :
    (s.rename f).watcherOf who = Prod.map id (rename f) (s.watcherOf who) := by
  have hwatchers : (s.rename f).watchers = s.watchers := rfl
  unfold watcherOf
  rw [hwatchers]
  cases s.watchers.get? who.label <;> rfl

/-- A request may name a watcher that is yet to be created, and no key decides which. -/
theorem requestOf_rename (s : Session) (r : Request) :
    (s.rename f).requestOf (r.rename f) =
      Prod.map (Request.rename f) (rename f) (s.requestOf r) := by
  cases r with
  | watch l known who =>
      exact congrArg (fun r => (Request.watch l known r.1, r.2)) (watcherOf_rename s who)
  | unwatch l who =>
      exact congrArg (fun r => (Request.unwatch l r.1, r.2)) (watcherOf_rename s who)
  | _ => rfl

theorem requestOf_reading (s : Session) (r : Request) :
    (s.requestOf r).1.reading f = r.reading f := by
  cases r <;> rfl

/-- So may a call on a handle. -/
theorem callOf_rename (s : Session) (call : HandleCall) :
    (s.rename f).callOf (call.rename f) =
      Prod.map (HandleCall.rename f) (rename f) (s.callOf call) := by
  cases call with
  | watch known who =>
      exact congrArg (fun r => (HandleCall.watch known r.1, r.2)) (watcherOf_rename s who)
  | unwatch who =>
      exact congrArg (fun r => (HandleCall.unwatch r.1, r.2)) (watcherOf_rename s who)
  | _ => rfl

/-- Ledgers are fenced and deleted in a row alike under renamed keys. -/
theorem fenceAndRemove_rename (hf : KeyRenaming f) (s : Session) (c : Nat) (presented : Bytes)
    (replay : Bool) (ledgers : List LedgerId) :
    (s.rename f).fenceAndRemove c (f presented) replay ledgers =
      Prod.map id (rename f) (s.fenceAndRemove c presented replay ledgers) := by
  induction ledgers generalizing s with
  | nil => rfl
  | cons l ledgers ih =>
      unfold fenceAndRemove
      dsimp only
      generalize hr' : (rename f s).performObject _ _ = r'
      generalize hr : s.performObject _ _ = r
      have hopened : r' = Prod.map id (rename f) r := by
        rw [← hr', ← hr]
        refine performObject_rename hf s (.openWritable c l presented replay) rfl fun n s => ?_
        refine performThen_rename hf s (.use (.writable n) .fence) rfl fun _ s => ?_
        rw [show (s.rename f).perform (.remove .planned l) = _ from
          perform_blind hf s (.remove .planned l) rfl]
        rcases s.perform (.remove .planned l) with ⟨e | a, s⟩
        · cases e <;> rfl
        · rfl
      subst hopened
      rcases r with ⟨e | a, s⟩
      · rfl
      · exact ih s

/-- Callers who look a ledger up at once present the same key, and all of them its name. -/
theorem openTogether_rename (hf : KeyRenaming f) (s : Session) (c : Nat) (l : LedgerId)
    (presented : Bytes) (times : Nat) :
    (s.rename f).openTogether c l (f presented) times =
      Prod.map id (rename f) (s.openTogether c l presented times) := by
  induction times generalizing s with
  | zero => rfl
  | succ times ih =>
      have hopen : (s.rename f).perform (.openWritable c l (f presented) false) =
          Prod.map id (rename f) (s.perform (.openWritable c l presented false)) :=
        perform_blind hf s (.openWritable c l presented false) rfl
      unfold openTogether
      rw [hopen]
      rcases s.perform (.openWritable c l presented false) with ⟨e | a, s⟩
      · exact ih s
      · cases a with
        | object h =>
            dsimp only [Prod.map_apply, id_eq]
            rw [ih]
            rfl
        | _ => exact ih s

/-- Threads that fence at once share a handle, which fences alike. -/
theorem fenceTogether_rename (hf : KeyRenaming f) (s : Session) (ref : HandleRef)
    (path : JournalPath) (times : Nat) :
    (s.rename f).fenceTogether ref path times =
      Prod.map id (rename f) (s.fenceTogether ref path times) := by
  induction times generalizing s with
  | zero => rfl
  | succ times ih =>
      unfold fenceTogether
      generalize hr' : (rename f s).performObject _ _ = r'
      generalize hr : s.performObject _ _ = r
      have hfirst : r' = Prod.map id (rename f) r := by
        rw [← hr', ← hr]
        refine performObject_rename hf s .startWorker rfl fun worker s => ?_
        refine performObject_rename hf s (.fence ref path (.worker worker)) rfl ?_
        exact fun _ _ => rfl
      subst hfirst
      dsimp only [Prod.map_fst, Prod.map_snd]
      rw [ih]
      rfl

/-- A path is made of a handle and a journal, and neither is named by a key. -/
theorem pathOf_rename (hf : KeyRenaming f) (s : Session) (spec : JournalSpec) :
    (s.rename f).pathOf spec = Prod.map id (rename f) (s.pathOf spec) := by
  cases spec with
  | memory =>
      refine performObject_rename hf s .createMemoryJournal rfl ?_
      exact fun _ _ => rfl
  | scripted mode =>
      refine performObject_rename hf s (.createScriptedJournal mode) rfl ?_
      exact fun _ _ => rfl
  | reportThenRefuse code cause => rfl
  | refencing handle inner =>
      refine withName_rename s fun path => withName_rename s ?_
      exact fun ref => rfl

/-! ### Commands -/

theorem dump_rename (hlength : ∀ k, (f k).length = k.length) (h : Handle) :
    (h.rename f).dump = h.dump := by
  unfold Handle.dump MasterKey.dump Handle.rename MasterKey.rename
  rw [hlength]

theorem storeDump_rename (s : Store) : (s.rename f).dump = s.dump := by
  unfold Store.dump Store.rename
  rw [Table.size_mapValues]

theorem watcherCount_rename (s : Store) (l : LedgerId) :
    (s.rename f).watcherCount l = s.watcherCount l := by
  unfold Store.watcherCount
  rw [Store.get?_rename]
  cases s.ledgers.get? l <;> rfl

theorem collected_rename (hf : KeyRenaming f) (s : Session) (reply : Reply) :
    (s.rename f).collect.tell reply = Prod.map id (rename f) (s.collect.tell reply) :=
  congrArg (Session.tell · reply) (collect_rename hf s)

theorem unobserve_rename (hf : KeyRenaming f) (s : Session) (n : Nat) :
    ((s.rename f).perform (.unobserve n)).2 = (s.perform (.unobserve n)).2.rename f :=
  congrArg Prod.snd (perform_blind hf s (.unobserve n) rfl)

theorem withJournal_rename (s : Session) {name : String} {k k' : Nat → Result Reply}
    (hk : ∀ j, k' j = Prod.map id (rename f) (k j)) :
    (s.rename f).withJournal name k' = Prod.map id (rename f) (s.withJournal name k) := by
  refine withName_rename s fun path => ?_
  cases path with
  | journal j => exact hk j
  | _ => rfl

/-- Who listens under a name in place of another is subscribed, and the other is not. -/
theorem obey_listen_rename (hf : KeyRenaming f) (s : Session) (name : String)
    (reopening : Option (String × Bytes × Bool)) :
    (s.rename f).obey (Command.rename f (.listen name reopening)) =
      Prod.map id (rename f) (s.obey (.listen name reopening)) := by
  rcases reopening with _ | ⟨cache, secret, replay⟩
  case' none =>
    refine performObject_rename hf s (.observe ⟨name, none⟩) rfl fun n s => ?_
  case' some =>
    refine withName_rename s fun c => ?_
    refine performObject_rename hf s (.observe ⟨name, some ⟨c, secret, replay⟩⟩) rfl
      fun n s => ?_
  all_goals
    have hobservers : (s.rename f).observers = s.observers := rfl
    dsimp only
    rw [hobservers]
    cases s.observers.get? name with
    | none => exact collected_rename hf { s with observers := s.observers.insert name n } _
    | some old =>
        dsimp only
        rw [unobserve_rename hf]
        exact collected_rename hf { (s.perform (.unobserve old)).2 with
          observers := (s.perform (.unobserve old)).2.observers.insert name n } _

theorem obey_unlisten_rename (hf : KeyRenaming f) (s : Session) (name : String) :
    (s.rename f).obey (.unlisten name) = Prod.map id (rename f) (s.obey (.unlisten name)) := by
  have hobservers : (s.rename f).observers = s.observers := rfl
  simp only [obey, hobservers]
  cases s.observers.get? name with
  | none => rfl
  | some n =>
      dsimp only
      rw [unobserve_rename hf]
      exact collected_rename hf { (s.perform (.unobserve n)).2 with
        observers := (s.perform (.unobserve n)).2.observers.erase name } _

/-- The text of a handle shows no more of its key than how long it is. -/
theorem obey_handleDump_rename (hf : KeyRenaming f) (hlength : ∀ k, (f k).length = k.length)
    (s : Session) (name : String) :
    (s.rename f).obey (.handleDump name) = Prod.map id (rename f) (s.obey (.handleDump name)) := by
  refine withName_rename s fun ref => ?_
  cases ref with
  | reader r => rfl
  | writable h =>
      have hdump : ((s.rename f).host.handleAt h).dump = (s.host.handleAt h).dump :=
        (congrArg Handle.dump (s.host.handleAt_rename hf h)).trans (dump_rename hlength _)
      exact congrArg (fun text => (s.rename f).tell (.text text)) hdump

theorem obey_isPersisted_rename (hf : KeyRenaming f) (s : Session) (name : String) :
    (s.rename f).obey (.isPersisted name) =
      Prod.map id (rename f) (s.obey (.isPersisted name)) := by
  refine withName_rename s fun ref => ?_
  cases ref with
  | reader r => rfl
  | writable h =>
      have hpersisted : ((s.rename f).host.handleAt h).persisted =
          (s.host.handleAt h).persisted :=
        (congrArg Handle.persisted (s.host.handleAt_rename hf h)).trans rfl
      exact congrArg (fun b => (s.rename f).tell (.answer (.flag b))) hpersisted

/-- A command that tells no key comes to the same in a session with other keys. -/
theorem obey_blind (hf : KeyRenaming f) (s : Session) {command : Command}
    (hreading : command.reading f = id)
    (hshows : command.showsHandle = true → ∀ k, (f k).length = k.length) :
    (s.rename f).obey (command.rename f) = Prod.map id (rename f) (s.obey command) := by
  cases command with
  | request access r =>
      have hr : r.reading f = id :=
        funext fun a => Reply.answer.inj (congrFun hreading (.answer a))
      change ((s.rename f).requestOf (r.rename f)).2.performReply
          (.request access ((s.rename f).requestOf (r.rename f)).1) =
        Prod.map _ _ ((s.requestOf r).2.performReply (.request access (s.requestOf r).1))
      rw [requestOf_rename]
      exact performReply_blind hf (s.requestOf r).2 (.request access (s.requestOf r).1)
        ((s.requestOf_reading r).trans hr)
  | append access entry => exact performReply_blind hf s (.append access entry) rfl
  | remove access l => exact performReply_blind hf s (.remove access l) rfl
  | listen name reopening => exact obey_listen_rename hf s name reopening
  | unlisten name => exact obey_unlisten_rename hf s name
  | storeCounts l =>
      simp only [Command.rename, obey]
      have hsize : (s.rename f).host.store.ledgers.size = s.host.store.ledgers.size :=
        Table.size_mapValues s.host.store.ledgers
      have hcount : (s.rename f).host.store.watcherCount l = s.host.store.watcherCount l :=
        watcherCount_rename s.host.store l
      rw [hsize, hcount]
      rfl
  | storeDump =>
      have hdump : (s.rename f).host.store.dump = s.host.store.dump := storeDump_rename s.host.store
      simp only [Command.rename, obey]
      rw [hdump]
      rfl
  | planFault call fault => exact performReply_blind hf s (.planFault call fault) rfl
  | clearFaults => exact performReply_blind hf s .clearFaults rfl
  | createCache name config =>
      refine performObject_rename hf s (.createCache config) rfl fun n s => ?_
      exact collected_rename hf { s with caches := s.caches.insert name n } _
  | dropCache name =>
      refine withName_rename s fun _ => ?_
      exact collected_rename hf { s with caches := s.caches.erase name } _
  | openWritable cache l presented replay name =>
      refine withName_rename s fun c => ?_
      refine performObject_rename hf s (.openWritable c l presented replay) rfl fun h s => ?_
      exact bindHandle_rename s name (.writable h)
  | openReader cache l name =>
      refine withName_rename s fun c => ?_
      refine performObject_rename hf s (.openReader c l) rfl fun r s => ?_
      exact bindHandle_rename s name (.reader r)
  | tellCache cache l wasFenced =>
      exact withName_rename s fun c => performReply_blind hf s (.tellCache c l wasFenced) rfl
  | fenceAndRemove cache first count presented replay =>
      exact withName_rename s fun c =>
        fenceAndRemove_rename hf s c presented replay (ledgersFrom first count)
  | openTogether cache l presented threads =>
      refine withName_rename s fun c => ?_
      dsimp only
      rw [openTogether_rename hf]
      rfl
  | createHandle l secret ack name =>
      refine performObject_rename hf s (.createHandle l secret ack) rfl fun h s => ?_
      exact bindHandle_rename s name (.writable h)
  | createReader l name =>
      refine performObject_rename hf s (.createReader l) rfl fun r s => ?_
      exact bindHandle_rename s name (.reader r)
  | handleLedger name =>
      refine withName_rename s fun ref => ?_
      exact congrArg (fun l => (s.rename f).tell (.ledger l)) (s.host.ledgerOf_rename ref)
  | handleDump name => exact obey_handleDump_rename hf (hshows rfl) s name
  | isPersisted name => exact obey_isPersisted_rename hf s name
  | use name call =>
      refine withName_rename s fun ref => ?_
      dsimp only
      rw [callOf_rename]
      exact performReply_blind hf (s.callOf call).2 (.use ref (s.callOf call).1) rfl
  | fence handle journal thread name =>
      refine withName_rename s fun ref => withName_rename s fun path => ?_
      refine performObject_rename hf s (.fence ref path thread) rfl ?_
      exact fun _ _ => rfl
  | fenceTogether handle journal threads wait =>
      refine withName_rename s fun ref => withName_rename s fun path => ?_
      rw [fenceTogether_rename hf]
      rcases s.fenceTogether ref path threads with ⟨e | outcomes, s⟩
      · rfl
      · cases wait <;> cases outcomes <;> rfl
  | createJournal name spec =>
      simp only [Command.rename, obey]
      rw [pathOf_rename hf]
      rcases s.pathOf spec with ⟨e | path, s⟩
      · rfl
      · exact collected_rename hf { s with journals := s.journals.insert name path } _
  | dropJournal name =>
      refine withName_rename s fun _ => ?_
      exact collected_rename hf { s with journals := s.journals.erase name } _
  | log name thread entry ack label =>
      exact withName_rename s fun path =>
        performReply_blind hf s (.log path thread entry ack label) rfl
  | journalState name =>
      refine withJournal_rename s fun j => ?_
      have hjournals : (s.rename f).host.journals = s.host.journals := rfl
      rw [hjournals]
      cases s.host.journals.get? j <;> rfl
  | shutDown name =>
      exact withJournal_rename s fun j => performReply_blind hf s (.shutDown j) rfl
  | setMode name mode =>
      exact withJournal_rename s fun j => performReply_blind hf s (.setMode j mode) rfl
  | queueFailure name cause =>
      exact withJournal_rename s fun j => performReply_blind hf s (.queueFailure j cause) rfl
  | completeNext name code =>
      exact withJournal_rename s fun j => performReply_blind hf s (.completeNext j code) rfl
  | completeAll name code =>
      exact withJournal_rename s fun j => performReply_blind hf s (.completeAll j code) rfl
  | dropNext name =>
      exact withJournal_rename s fun j => performReply_blind hf s (.dropNext j) rfl
  | createOutcome result name =>
      refine performObject_rename hf s (.createOutcome result) rfl ?_
      exact fun _ _ => rfl
  | raise thread => exact performReply_blind hf s (.raise thread) rfl
  | takeInterrupt thread => exact performReply_blind hf s (.takeInterrupt thread) rfl
  | raiseHeld name =>
      exact withName_rename s fun thread => performReply_blind hf s (.raise thread) rfl
  | sameOutcome name other =>
      refine withName_rename s fun o => withName_rename s ?_
      exact fun _ => rfl
  | cacheState | recalls | recallsAmong | peek | await | startWait | joinWait | dropOutcome
  | isHeldRaised =>
      refine withName_rename s ?_
      exact fun _ => rfl
  | callCount | dropHandle | isRaised | holdFlag | metrics => rfl

/-- Every command comes to the same in a session with other keys, but for the key that it
tells, if it tells one. -/
theorem obey_rename (hf : KeyRenaming f) (s : Session) (command : Command)
    (hshows : command.showsHandle = true → ∀ k, (f k).length = k.length) :
    (s.rename f).obey (command.rename f) =
      Prod.map (Except.map (command.reading f)) (rename f) (s.obey command) := by
  cases command with
  | request access r =>
      change ((s.rename f).requestOf (r.rename f)).2.performReply
          (.request access ((s.rename f).requestOf (r.rename f)).1) =
        Prod.map _ _ ((s.requestOf r).2.performReply (.request access (s.requestOf r).1))
      rw [requestOf_rename]
      refine (performReply_rename hf (s.requestOf r).2 (.request access (s.requestOf r).1)).trans ?_
      exact congrArg (fun g => Prod.map (Except.map (Reply.mapAnswer g)) _ _)
        (s.requestOf_reading r)
  | _ =>
      refine (obey_blind hf s rfl hshows).trans ?_
      exact (congrArg (fun g => Prod.map g _ _) Except.map_id).symm

/-- What a command leaves does not depend on what is shown of keys. -/
theorem obey_rename_behind (hf : KeyRenaming f) (s : Session) (command : Command) :
    ((s.rename f).obey (command.rename f)).2 = (s.obey command).2.rename f := by
  by_cases hshows : command.showsHandle = true
  · obtain ⟨name, rfl⟩ : ∃ name, command = .handleDump name := by
      cases command with
      | handleDump name => exact ⟨name, rfl⟩
      | _ => cases hshows
    have hbehind : ∀ s : Session, (s.obey (.handleDump name)).2 = s := by
      intro s
      change (s.withName s.handles name _).2 = s
      unfold withName
      rcases s.handles.get? name with _ | _ | _ <;> rfl
    exact (hbehind _).trans (congrArg (rename f) (hbehind s)).symm
  · exact congrArg Prod.snd (obey_rename hf s command fun h => absurd h hshows)

/-! ### Runs -/

/-- A session under renamed keys has the same replies, but for a request for a key. -/
theorem run_rename (hf : KeyRenaming f) (hlength : ∀ k, (f k).length = k.length) (s : Session)
    (commands : List Command) :
    (s.rename f).run (commands.map (Command.rename f)) =
      List.zipWith (Command.retell f) commands (s.run commands) := by
  induction commands generalizing s with
  | nil => rfl
  | cons command commands ih =>
      have hobey := obey_rename hf s.quiet command fun _ => hlength
      have hstep : (s.rename f).step (command.rename f) =
          Prod.map (command.retell f) (rename f) (s.step command) := by
        exact congrArg (fun r => ((⟨r.1, r.2.host.events⟩ : Step), r.2)) hobey
      rw [List.map_cons]
      unfold run
      rw [hstep, List.zipWith_cons_cons]
      exact congrArg (_ :: ·) (ih _)

/-- The session after the commands is the renamed one. -/
theorem after_rename (hf : KeyRenaming f) (s : Session) (commands : List Command) :
    (s.rename f).after (commands.map (Command.rename f)) = (s.after commands).rename f := by
  induction commands generalizing s with
  | nil => rfl
  | cons command commands ih =>
      have hstep : ((s.rename f).step (command.rename f)).2 = (s.step command).2.rename f :=
        obey_rename_behind hf s.quiet command
      unfold after at ih ⊢
      rw [List.map_cons, List.foldl_cons, hstep]
      exact ih _

theorem start_rename (f : Bytes → Bytes) (faults : Option FaultPlan) :
    (start faults).rename f = start faults := by
  simp [rename, start, Host.rename, Host.start, Store.rename, Store.empty]

end Session

end FencedLedger
