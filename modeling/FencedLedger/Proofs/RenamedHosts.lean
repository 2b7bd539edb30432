import FencedLedger.Proofs.KeyRenaming

/-!
# Hosts with other keys

Every operation on a host, presented with renamed keys, leaves the renamed host and
answers the same, a request for a key apart. Keys are compared where a ledger is created
again, where a stored key is checked and where a handle is asked for access, and in each
place a renaming that keeps keys apart makes no difference. Journals see no keys at all.
-/

namespace FencedLedger

variable {f : Bytes → Bytes}

namespace Host

/-- The host with every key renamed that it holds. -/
def rename (f : Bytes → Bytes) (w : Host) : Host :=
  { w with
    store := w.store.rename f
    handles := w.handles.map (Handle.rename f)
    observers := w.observers.map (Observer.rename f) }

@[simp] theorem store_rename (w : Host) : (w.rename f).store = w.store.rename f := rfl

@[simp] theorem faults_rename (w : Host) : (w.rename f).faults = w.faults := rfl

@[simp] theorem journals_rename (w : Host) : (w.rename f).journals = w.journals := rfl

@[simp] theorem interrupts_rename (w : Host) : (w.rename f).interrupts = w.interrupts := rfl

@[simp] theorem now_rename (w : Host) : (w.rename f).now = w.now := rfl

@[simp] theorem cacheAt_rename (w : Host) (c : Nat) : (w.rename f).cacheAt c = w.cacheAt c := rfl

/-! ### Objects -/

theorem handleAt_rename (hf : KeyRenaming f) (w : Host) (h : Nat) :
    (w.rename f).handleAt h = (w.handleAt h).rename f := by
  unfold handleAt rename
  rw [Arena.get?_map]
  cases w.handles.get? h with
  | none => exact congrArg (fun secret => (⟨_, ⟨secret⟩, _, _, _⟩ : Handle)) hf.nil.symm
  | some x => rfl

theorem ledgerOf_rename (w : Host) (ref : HandleRef) :
    (w.rename f).ledgerOf ref = w.ledgerOf ref := by
  cases ref with
  | reader r => rfl
  | writable h =>
      unfold ledgerOf handleAt rename
      dsimp only
      rw [Arena.get?_map]
      cases w.handles.get? h <;> rfl

theorem knowsHandle_rename (w : Host) (ref : HandleRef) :
    (w.rename f).knowsHandle ref = w.knowsHandle ref := by
  cases ref with
  | reader r => rfl
  | writable h => exact Arena.holds_map w.handles h

theorem isPresent_rename (w : Host) : (w.rename f).isPresent = w.isPresent := by
  funext who
  cases who with
  | cache c => rfl
  | observer o => exact Arena.holds_map w.observers o

theorem modifyHandle_rename {u : Handle → Handle} (hu : ∀ x, (u x).rename f = u (x.rename f))
    (w : Host) (h : Nat) : (w.rename f).modifyHandle h u = (w.modifyHandle h u).rename f := by
  unfold modifyHandle rename
  dsimp only
  rw [Arena.map_modify hu]

/-! ### The store -/

theorem enter_rename (w : Host) (c : StoreCall) :
    (w.rename f).enter c = Prod.map id (rename f) (w.enter c) := by
  unfold enter
  rw [faults_rename]
  cases w.faults <;> rfl

section Asking

variable {α : Type} {g : α → α} {action action' : StoreAction α}

theorem ask_rename (haction : Store.Renamed f g action action') (w : Host) :
    (w.rename f).ask action' = Prod.map (Except.map g) (rename f) (w.ask action) := by
  unfold ask
  rw [store_rename, haction w.store]
  rcases action w.store with e | ⟨a, s⟩ <;> rfl

theorem call_rename (haction : Store.Renamed f g action action') (w : Host) (c : StoreCall) :
    (w.rename f).call c action' = Prod.map (Except.map g) (rename f) (w.call c action) := by
  unfold call
  rw [enter_rename]
  rcases w.enter c with ⟨_ | e, w⟩
  · exact ask_rename haction w
  · rfl

theorem call_rename_id (haction : Store.Renamed f id action action') (w : Host) (c : StoreCall) :
    (w.rename f).call c action' = Prod.map id (rename f) (w.call c action) := by
  rw [call_rename haction, Except.map_id]

theorem send_rename (haction : Store.Renamed f g action action') (w : Host) (access : Access)
    (c : StoreCall) : (w.rename f).send access c action' =
      Prod.map (Except.map g) (rename f) (w.send access c action) := by
  cases access with
  | planned => exact call_rename haction w c
  | direct => exact ask_rename haction w

end Asking

theorem request_rename (hf : KeyRenaming f) (w : Host) (access : Access) (r : Request) :
    (w.rename f).request access (r.rename f) =
      Prod.map (Except.map (r.reading f)) (rename f) (w.request access r) := by
  have hcall : (r.rename f).call = r.call := by cases r <;> rfl
  unfold request
  rw [hcall]
  exact send_rename (Store.request_renamed hf r) w access r.call

/-! ### Watchers and entries -/

/-- What a watcher does when it is told has nothing to do with keys. -/
theorem tellWatcher_rename (w : Host) (notice : Notice) :
    (w.rename f).tellWatcher notice = (w.tellWatcher notice).rename f := by
  unfold tellWatcher
  split
  next => rfl
  next =>
    rw [call_rename_id (Store.watch_renamed _ _ _)]
    rfl
  next =>
    rw [call_rename_id (Store.confirmed_renamed _)]
    rfl

theorem foldl_rename {α : Type} {u : Host → α → Host}
    (hu : ∀ w x, u (w.rename f) x = (u w x).rename f) (w : Host) (xs : List α) :
    xs.foldl u (w.rename f) = (xs.foldl u w).rename f := by
  induction xs generalizing w with
  | nil => rfl
  | cons x xs ih => rw [List.foldl_cons, hu, ih, List.foldl_cons]

theorem append_rename (w : Host) (access : Access) (entry : Bytes) :
    (w.rename f).append access entry = Prod.map id (rename f) (w.append access entry) := by
  unfold append
  rw [send_rename (Store.append_renamed entry), Except.map_id]
  rcases w.send access .append (Store.append entry) with ⟨e | ⟨id, notices⟩, w⟩
  · rfl
  · exact congrArg (Prod.mk _) (foldl_rename tellWatcher_rename w notices)

/-! ### Opening -/

/-- A handle is made with the name of its key. -/
theorem createHandle_rename (hf : KeyRenaming f) (w : Host) (l : LedgerId) (secret : Bytes)
    (ack : Bool) : (w.rename f).createHandle l ⟨f secret⟩ ack =
      Prod.map id (rename f) (w.createHandle l ⟨secret⟩ ack) := by
  unfold createHandle
  rw [call_rename_id (Store.bindKey_renamed hf l secret)]
  rcases w.call .bindKey (Store.bindKey l ⟨secret⟩) with ⟨e | _, w⟩
  · rfl
  · simp [rename, Arena.map_add, Handle.create, Handle.rename, MasterKey.rename]

theorem createReader_rename (w : Host) (l : LedgerId) :
    (w.rename f).createReader l = Prod.map id (rename f) (w.createReader l) := by
  unfold createReader
  rw [call_rename_id (Store.holds_renamed l)]
  rcases w.call .holds (Store.holds l) with ⟨e | _ | _, w⟩ <;> rfl

/-- A handle compares keys under their names as it compared the keys. -/
theorem checkAccess_rename (hf : KeyRenaming f) (w : Host) (h : Nat) (presented : Bytes) :
    (w.rename f).checkAccess h (f presented) =
      Prod.map id (rename f) (w.checkAccess h presented) := by
  unfold checkAccess
  rw [handleAt_rename hf]
  have haccepts : ((w.handleAt h).rename f).key.accepts (f presented) =
      (w.handleAt h).key.accepts presented := hf.accepts _ presented
  dsimp only
  rw [haccepts]
  split <;> rfl

/-- A stored key is compared under its name as it was compared. -/
theorem checkStoredKey_rename (hf : KeyRenaming f) (w : Host) (l : LedgerId) (presented : Bytes) :
    (w.rename f).checkStoredKey l (f presented) =
      Prod.map id (rename f) (w.checkStoredKey l presented) := by
  unfold checkStoredKey
  rw [call_rename (Store.key_renamed l)]
  rcases w.call .key (Store.key l) with ⟨e | key, w⟩
  · cases e <;> rfl
  · have haccepts := hf.accepts key presented
    dsimp only [Prod.map_apply, Except.map]
    rw [haccepts]
    split <;> rfl

/-- The key that is presented decides alike under its name, as names keep keys apart. -/
theorem obtainHandle_rename (hf : KeyRenaming f) (w : Host) (c : Nat) (l : LedgerId)
    (presented : Bytes) : (w.rename f).obtainHandle c l (f presented) =
      Prod.map id (rename f) (w.obtainHandle c l presented) := by
  unfold obtainHandle
  rw [cacheAt_rename]
  cases (w.cacheAt c).writable.get? l with
  | some h => rfl
  | none =>
      dsimp only
      rw [checkStoredKey_rename hf]
      rcases w.checkStoredKey l presented with ⟨e | _, w⟩
      · rfl
      · dsimp only [Prod.map_apply, id_eq]
        rw [cacheAt_rename, createHandle_rename hf]
        rcases w.createHandle l ⟨presented⟩ (w.cacheAt c).config.ackBeforeSync with ⟨e | h, w⟩ <;>
          rfl

theorem showCached_rename (w : Host) (c : Nat) (kind : HandleKind) :
    (w.rename f).showCached c kind = (w.showCached c kind).rename f := by
  cases kind <;> rfl

/-- A handle is found by its ledger, and made for the key under its name. -/
theorem findHandle_rename (hf : KeyRenaming f) (w : Host) (c : Nat) (l : LedgerId)
    (presented : Bytes) (replay : Bool) :
    (w.rename f).findHandle c l (f presented) replay =
      Prod.map id (rename f) (w.findHandle c l presented replay) := by
  unfold findHandle
  rw [cacheAt_rename, obtainHandle_rename hf]
  cases (w.cacheAt c).writable.get? l with
  | some h => rfl
  | none =>
      dsimp only
      rw [now_rename]
      split
      next => rfl
      next =>
        rcases w.obtainHandle c l presented with ⟨e | h, w⟩
        · rfl
        · exact congrArg (Prod.mk _) (showCached_rename w c .writable)

theorem openWritable_rename (hf : KeyRenaming f) (w : Host) (c : Nat) (l : LedgerId)
    (presented : Bytes) (replay : Bool) :
    (w.rename f).openWritable c l (f presented) replay =
      Prod.map id (rename f) (w.openWritable c l presented replay) := by
  unfold openWritable
  rw [findHandle_rename hf]
  rcases w.findHandle c l presented replay with ⟨e | h, w⟩
  · rfl
  · dsimp only [Prod.map_apply, id_eq]
    rw [checkAccess_rename hf]
    rcases w.checkAccess h presented with ⟨e | _, w⟩ <;> rfl

theorem openReader_rename (w : Host) (c : Nat) (l : LedgerId) :
    (w.rename f).openReader c l = Prod.map id (rename f) (w.openReader c l) := by
  unfold openReader
  rw [cacheAt_rename, createReader_rename]
  cases (w.cacheAt c).readers.get? l with
  | some r => rfl
  | none => rcases w.createReader l with ⟨e | r, w⟩ <;> rfl

/-! ### Deletions -/

/-- A cache that is told drops handles without a look at their keys. -/
theorem tellCache_rename (w : Host) (c : Nat) (l : LedgerId) (wasFenced : Bool) :
    (w.rename f).tellCache c l wasFenced = (w.tellCache c l wasFenced).rename f := by
  have hremember : (w.rename f).rememberDeletion c l = (w.rememberDeletion c l).rename f := by
    unfold rememberDeletion
    rw [cacheAt_rename, now_rename]
    dsimp only
    split <;> rfl
  unfold tellCache
  rw [cacheAt_rename, hremember]
  dsimp only
  split <;> rfl

/-- An observer looks the ledger up with the name of the key that it would have presented. -/
theorem tellObserver_rename (hf : KeyRenaming f) (w : Host) (observer : Observer) (l : LedgerId)
    (wasFenced : Bool) :
    (w.rename f).tellObserver (observer.rename f) l wasFenced =
      (w.tellObserver observer l wasFenced).rename f := by
  have hheld : (w.rename f).store.ledgers.contains l = w.store.ledgers.contains l :=
    Table.contains_mapValues w.store.ledgers l
  unfold tellObserver
  rw [hheld]
  obtain ⟨label, _ | r⟩ := observer
  · rfl
  · dsimp only [Observer.rename, Option.map_some, Reopening.rename]
    rw [openWritable_rename hf]
    rfl

/-- Subscribers are told alike, caches and observers. -/
theorem tellSubscriber_rename (hf : KeyRenaming f) (l : LedgerId) (wasFenced : Bool) (w : Host)
    (who : Subscriber) :
    tellSubscriber l wasFenced (w.rename f) who = (tellSubscriber l wasFenced w who).rename f := by
  cases who with
  | cache c => exact tellCache_rename w c l wasFenced
  | observer o =>
      have hget : (w.rename f).observers.get? o = (w.observers.get? o).map (Observer.rename f) :=
        Arena.get?_map w.observers o
      unfold tellSubscriber
      dsimp only
      rw [hget]
      cases w.observers.get? o with
      | none => rfl
      | some observer => exact tellObserver_rename hf w observer l wasFenced

/-- A removal tells subscribers, and each of them is blind to keys. -/
theorem remove_rename (hf : KeyRenaming f) (w : Host) (access : Access) (l : LedgerId) :
    (w.rename f).remove access l = Prod.map id (rename f) (w.remove access l) := by
  unfold remove
  rw [isPresent_rename, send_rename (Store.remove_renamed w.isPresent l), Except.map_id]
  rcases w.send access .remove (Store.remove w.isPresent l) with ⟨e | ⟨wasFenced, subscribers⟩, w⟩
  · rfl
  · exact congrArg (Prod.mk _) (foldl_rename (tellSubscriber_rename hf l wasFenced) w subscribers)

/-! ### Fencing -/

theorem markPersisted_rename (hf : KeyRenaming f) (w : Host) (h : Nat) :
    (w.rename f).markPersisted h = (w.markPersisted h).rename f := by
  unfold markPersisted
  rw [handleAt_rename hf,
    modifyHandle_rename (u := fun handle => { handle with persisted := true }) fun _ => rfl,
    Handle.persisted_rename]
  split <;> rfl

/-- A callback marks the handle or raises an event, and shows no key. -/
theorem complete_rename (hf : KeyRenaming f) (w : Host) (callback : Callback)
    (report : Completion) :
    (w.rename f).complete callback report = (w.complete callback report).rename f := by
  cases callback with
  | report label => rfl
  | fence h o =>
      unfold complete noteMarker
      dsimp only
      split
      next =>
        rw [markPersisted_rename hf]
        rfl
      next => rfl

theorem abandon_rename (w : Host) (callback : Callback) :
    (w.rename f).abandon callback = (w.abandon callback).rename f := by
  cases callback <;> rfl

theorem openAppend_rename (w : Host) (h : Nat) (path : FencePath) :
    (w.rename f).openAppend h path = Prod.map id (rename f) (w.openAppend h path) := by
  unfold openAppend
  refine congrArg (Prod.mk _) ?_
  exact modifyHandle_rename (u := fun handle => { handle with latest := some w.outcomes.next })
    (fun _ => rfl) (((w.count (.fenceAttempts path) 1).addOutcome .pending).2) h

/-- A decision depends on the mark and on the append under way. -/
theorem decideAgain_rename (hf : KeyRenaming f) (w : Host) (h : Nat) :
    (w.rename f).decideAgain h = Prod.map id (rename f) (w.decideAgain h) := by
  have hunder : (w.rename f).underWay? h = w.underWay? h := by
    unfold underWay?
    rw [handleAt_rename hf]
    rfl
  unfold decideAgain
  rw [handleAt_rename hf, hunder, Handle.persisted_rename]
  split
  next => rfl
  next =>
    cases w.underWay? h with
    | some o => rfl
    | none => exact openAppend_rename w h .retry

/-- The request to fence names a ledger and no key. -/
theorem decideFence_rename (hf : KeyRenaming f) (w : Host) (h : Nat) :
    (w.rename f).decideFence h = Prod.map id (rename f) (w.decideFence h) := by
  unfold decideFence
  rw [handleAt_rename hf, Handle.ledger_rename, call_rename_id (Store.fence_renamed _)]
  rcases w.call .fence (Store.fence (w.handleAt h).ledger) with ⟨e | _ | _, w⟩
  · rfl
  · dsimp only [Prod.map_apply, id_eq]
    rw [decideAgain_rename hf]
    rfl
  · dsimp only [Prod.map_apply, id_eq]
    rw [openAppend_rename]
    rfl

/-- A journal takes the same entries from a host with other keys. -/
def Submit.Blind (f : Bytes → Bytes) (submit : Submit) : Prop :=
  ∀ w t entry ack callback,
    submit (rename f w) t entry ack callback =
      Prod.map id (rename f) (submit w t entry ack callback)

/-- A journal that is blind to keys makes the same of the marker. -/
theorem submitMarker_rename (hf : KeyRenaming f) {submit : Submit} (hsubmit : submit.Blind f)
    (w : Host) (t : Thread) (h o : Nat) :
    (w.rename f).submitMarker submit t h o = (w.submitMarker submit t h o).rename f := by
  unfold submitMarker
  rw [handleAt_rename hf]
  dsimp only
  rw [Handle.ledger_rename, Handle.ackBeforeSync_rename, hsubmit]
  rcases submit w t _ _ _ with ⟨cause | _, w⟩
  · cases cause <;> rfl
  · rfl

/-- A fence call hands over a marker in which there is no key. -/
theorem fenceThrough_rename (hf : KeyRenaming f) {submit : Submit} (hsubmit : submit.Blind f)
    (w : Host) (t : Thread) (ref : HandleRef) :
    (w.rename f).fenceThrough submit t ref =
      Prod.map id (rename f) (w.fenceThrough submit t ref) := by
  cases ref with
  | reader r => rfl
  | writable h =>
      unfold fenceThrough fenceWith
      dsimp only
      rw [decideFence_rename hf]
      rcases w.decideFence h with ⟨e | decision, w⟩
      · rfl
      · dsimp only [Prod.map_apply, id_eq]
        split
        next =>
          exact congrArg (Prod.mk _) (submitMarker_rename hf hsubmit w t h decision.outcome)
        next => rfl

/-- A journal sees the entry, the callback and the thread. -/
theorem submitTo_blind (hf : KeyRenaming f) (id : Nat) : (submitTo id).Blind f := by
  intro w t entry ack callback
  unfold submitTo
  rw [journals_rename]
  cases w.journals.get? id with
  | none => rfl
  | some journal =>
      dsimp only
      rw [interrupts_rename]
      rcases journal.submit (w.interrupts.isRaised t) entry ack callback with ⟨verdict, journal'⟩
      have hcomplete := complete_rename hf
        { w with
          journals := w.journals.modify id fun _ => journal'
          interrupts := if journal.heedsInterrupts then w.interrupts.clear t else w.interrupts }
        callback
      cases verdict with
      | refused cause => rfl
      | completed report => exact congrArg (Prod.mk _) (hcomplete report)
      | held => rfl

/-- The calls that are made on the way are blind to keys, and so is the whole path. -/
theorem submit_blind (hf : KeyRenaming f) (path : JournalPath) : (submit path).Blind f := by
  induction path with
  | journal id => exact submitTo_blind hf id
  | reportThenRefuse code cause =>
      intro w t entry ack callback
      exact congrArg (Prod.mk _) (complete_rename hf w callback _)
  | refencing handle inner ih =>
      intro w t entry ack callback
      unfold submit
      rw [fenceThrough_rename hf ih]
      rcases w.fenceThrough (submit inner) t handle with ⟨answer, w⟩
      exact ih (w.emit (.refenced (answer.map w.outcomeAt))) t entry ack callback

theorem fence_rename (hf : KeyRenaming f) (w : Host) (path : JournalPath) (t : Thread)
    (ref : HandleRef) :
    (w.rename f).fence path t ref = Prod.map id (rename f) (w.fence path t ref) :=
  fenceThrough_rename hf (submit_blind hf path) w t ref

theorem takeHeld_rename (w : Host) (j : Nat) :
    (w.rename f).takeHeld j = Prod.map id (rename f) (w.takeHeld j) := by
  have hheld : (w.rename f).heldBy j = w.heldBy j := rfl
  unfold takeHeld
  rw [hheld]
  cases w.heldBy j <;> rfl

theorem completeNext_rename (hf : KeyRenaming f) (w : Host) (j : Nat) (code : ReturnCode) :
    (w.rename f).completeNext j code = Prod.map id (rename f) (w.completeNext j code) := by
  unfold completeNext
  rw [takeHeld_rename]
  rcases w.takeHeld j with ⟨_ | held, w⟩
  · rfl
  · exact congrArg (Prod.mk _) (complete_rename hf w held.callback _)

/-- Callbacks are completed one at a time, and none of them shows a key. -/
theorem completeUpTo_rename (hf : KeyRenaming f) (w : Host) (j : Nat) (code : ReturnCode)
    (bound : Nat) : (w.rename f).completeUpTo j code bound =
      Prod.map id (rename f) (w.completeUpTo j code bound) := by
  induction bound generalizing w with
  | zero => rfl
  | succ bound ih =>
      unfold completeUpTo
      rw [completeNext_rename hf]
      rcases w.completeNext j code with ⟨_ | _, w⟩
      · rfl
      · dsimp only [Prod.map_apply, id_eq]
        rw [ih]
        rfl

theorem completeAll_rename (hf : KeyRenaming f) (w : Host) (j : Nat) (code : ReturnCode) :
    (w.rename f).completeAll j code = Prod.map id (rename f) (w.completeAll j code) :=
  completeUpTo_rename hf w j code (w.heldBy j).length

theorem dropNext_rename (w : Host) (j : Nat) :
    (w.rename f).dropNext j = Prod.map id (rename f) (w.dropNext j) := by
  unfold dropNext
  rw [takeHeld_rename]
  rcases w.takeHeld j with ⟨_ | held, w⟩
  · rfl
  · exact congrArg (Prod.mk _) (abandon_rename w held.callback)

theorem releaseJournal_rename (w : Host) (j : Nat) :
    (w.rename f).releaseJournal j = (w.releaseJournal j).rename f :=
  foldl_rename (fun w (held : Held) => abandon_rename w held.callback)
    { w with journals := w.journals.release j } (w.heldBy j)

/-! ### Calls on handles -/

/-- A call that goes to the store as a request is renamed with it. -/
theorem forward_rename (hf : KeyRenaming f) (w : Host) {call : HandleCall} {l : LedgerId}
    {r : Request} (hr : call.request? l = some r) :
    (w.rename f).forward r = Prod.map id (rename f) (w.forward r) := by
  obtain ⟨hrename, hreading⟩ := HandleCall.request?_blind (f := f) hr
  have hrequest := request_rename hf w .planned r
  rw [hrename, hreading, Except.map_id] at hrequest
  unfold forward
  rw [hrequest]
  rcases w.request .planned r with ⟨e | a, w⟩ <;> rfl

/-- An entry has no key in it. -/
theorem appendThrough_rename (w : Host) (l : LedgerId) (entry : Bytes) :
    (w.rename f).appendThrough l entry = Prod.map id (rename f) (w.appendThrough l entry) := by
  unfold appendThrough
  rw [append_rename]
  split
  next => rfl
  next =>
    split
    next => rfl
    next => rcases w.append .planned entry with ⟨e | id, w⟩ <;> rfl

/-- A key that is presented is compared with the one of the handle, and no other call
shows it. -/
theorem useWritable_rename (hf : KeyRenaming f) (w : Host) (h : Nat) (call : HandleCall) :
    (w.rename f).useWritable h (call.rename f) = Prod.map id (rename f) (w.useWritable h call) := by
  unfold useWritable
  rw [handleAt_rename hf]
  cases call with
  | access presented =>
      dsimp only [HandleCall.rename]
      rw [checkAccess_rename hf]
      rcases w.checkAccess h presented with ⟨e | _, w⟩ <;> rfl
  | append entry => exact appendThrough_rename w _ entry
  | _ =>
      dsimp only [HandleCall.rename]
      rw [Handle.ledger_rename]
      split
      next hr => exact forward_rename hf w hr
      next => rfl

theorem useReader_rename (hf : KeyRenaming f) (w : Host) (l : LedgerId) (call : HandleCall) :
    (w.rename f).useReader l (call.rename f) = Prod.map id (rename f) (w.useReader l call) := by
  unfold useReader
  rw [HandleCall.guarded?_rename, HandleCall.request?_rename]
  split
  next => rfl
  next hr => exact forward_rename hf w hr
  next => rfl

theorem use_rename (hf : KeyRenaming f) (w : Host) (ref : HandleRef) (call : HandleCall) :
    (w.rename f).use ref (call.rename f) = Prod.map id (rename f) (w.use ref call) := by
  cases ref with
  | reader r => exact useReader_rename hf w (w.ledgerOf (.reader r)) call
  | writable h => exact useWritable_rename hf w h call

/-! ### Operations -/

theorem answer_rename {ε α : Type} {r r' : Except ε α × Host} (h : r' = Prod.map id (rename f) r)
    (wrap : ε → Failure) (g : α → Answer) :
    answer wrap g r' = Prod.map id (rename f) (answer wrap g r) := by
  subst h
  obtain ⟨e | a, w⟩ := r <;> rfl

theorem whenHeld_rename {r r' : Except Failure Answer × Host} (h : r' = Prod.map id (rename f) r)
    (w : Host) (held : Bool) :
    (w.rename f).whenHeld held r' = Prod.map id (rename f) (w.whenHeld held r) := by
  subst h
  cases held <;> rfl

/-- A path is known by its journals and handles. -/
theorem knowsPath_rename (w : Host) (path : JournalPath) :
    (w.rename f).knowsPath path = w.knowsPath path := by
  induction path with
  | journal id => rfl
  | reportThenRefuse code cause => rfl
  | refencing handle inner ih =>
      unfold knowsPath
      rw [knowsHandle_rename, ih]

/-- An operation that tells no key comes to the same in a host with other keys. -/
theorem perform_blind (hf : KeyRenaming f) (w : Host) {op : Op} (hop : op.reading f = id) :
    (w.rename f).perform (op.rename f) = Prod.map id (rename f) (w.perform op) := by
  cases op with
  | request access r =>
      have hrequest := request_rename hf w access r
      -- what is read is told as it is
      rw [show r.reading f = id from hop, Except.map_id] at hrequest
      exact answer_rename hrequest _ _
  | append access entry => exact answer_rename (append_rename w access entry) _ _
  | remove access l => exact answer_rename (remove_rename hf w access l) _ _
  | observe observer =>
      simp [perform, Op.rename, rename, subscribe, Store.subscribe, Store.rename, Arena.map_add]
  | unobserve id =>
      have hheld : (w.rename f).observers.holds id = w.observers.holds id := Arena.holds_map _ id
      change (w.rename f).whenHeld _ _ = Prod.map _ _ (w.whenHeld _ _)
      rw [hheld]
      refine whenHeld_rename (congrArg done ?_) w _
      unfold rename
      dsimp only
      rw [Arena.map_release]
  | openWritable c l presented replay =>
      exact whenHeld_rename (answer_rename (openWritable_rename hf w c l presented replay) _ _) w _
  | openReader c l => exact whenHeld_rename (answer_rename (openReader_rename w c l) _ _) w _
  | tellCache c l wasFenced =>
      exact whenHeld_rename (congrArg done (tellCache_rename w c l wasFenced)) w _
  | createHandle l secret ack => exact answer_rename (createHandle_rename hf w l secret ack) _ _
  | createReader l => exact answer_rename (createReader_rename w l) _ _
  | use handle call =>
      change (w.rename f).whenHeld _ _ = Prod.map _ _ (w.whenHeld _ _)
      rw [knowsHandle_rename]
      exact whenHeld_rename (answer_rename (use_rename hf w handle call) _ _) w _
  | fence handle path thread =>
      change (w.rename f).whenHeld _ _ = Prod.map _ _ (w.whenHeld _ _)
      rw [knowsHandle_rename, knowsPath_rename]
      exact whenHeld_rename (answer_rename (fence_rename hf w path thread handle) _ _) w _
  | log path thread entry ack label =>
      change (w.rename f).whenHeld _ _ = Prod.map _ _ (w.whenHeld _ _)
      rw [knowsPath_rename]
      exact whenHeld_rename (answer_rename (submit_blind hf path w thread entry ack _) _ _) w _
  | releaseCache id =>
      exact whenHeld_rename (r := done { w with caches := w.caches.release id }) rfl w _
  | releaseJournal id => exact whenHeld_rename (congrArg done (releaseJournal_rename w id)) w _
  | completeNext j code =>
      exact congrArg (fun r => (Except.ok (ε := Failure) (Answer.flag r.1), r.2))
        (completeNext_rename hf w j code)
  | completeAll j code =>
      exact congrArg (fun r => (Except.ok (ε := Failure) (Answer.count r.1), r.2))
        (completeAll_rename hf w j code)
  | dropNext j =>
      exact congrArg (fun r => (Except.ok (ε := Failure) (Answer.flag r.1), r.2))
        (dropNext_rename w j)
  -- neither does any of these look at a key
  | planFault | clearFaults | createCache | createMemoryJournal | createScriptedJournal | shutDown
  | setMode | queueFailure | createOutcome | raise | takeInterrupt | startWorker => rfl

/-- Every operation comes to the same in a host with other keys, but for the key that it
tells, if it tells one. -/
theorem perform_rename (hf : KeyRenaming f) (w : Host) (op : Op) :
    (w.rename f).perform (op.rename f) =
      Prod.map (Except.map (op.reading f)) (rename f) (w.perform op) := by
  cases op with
  | request access r =>
      change answer .store id ((w.rename f).request access (r.rename f)) =
        Prod.map _ _ (answer .store id (w.request access r))
      rw [request_rename hf]
      rcases w.request access r with ⟨e | a, w⟩ <;> rfl
  | _ =>
      refine (perform_blind hf w rfl).trans ?_
      exact (congrArg (fun g => Prod.map g _ _) Except.map_id).symm

end Host

end FencedLedger
