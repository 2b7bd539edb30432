import FencedLedger.Proofs.StoreViews

/-!
# What calls on a host change

Most calls change one thing: a request changes the store, making a handle adds
one, opening a ledger caches what it made. The rest of a call is faults spent,
counts, gauges and events. `Idle` says that nothing else happened, and a call's
spec lemma says what did. Fencing has its own account of what it changes.
-/

namespace FencedLedger

/-- The notice of which an event says that a watcher was told. -/
def Event.notice? : Event → Option Notice
  | .advanced notice _ => some notice
  | _ => none

namespace Host

variable {w w' w'' v v' : Host}

/-- The notices that watchers were told, oldest first. -/
def notified (w : Host) : List Notice := w.events.filterMap Event.notice?

/-- The clock does not go back, and a host without a fault plan gets none. -/
structure Onward (w w' : Host) : Prop where
  now_le : w.now ≤ w'.now
  unplanned : w.faults = none → w'.faults = none

theorem Onward.refl (w : Host) : Onward w w := ⟨Nat.le_refl _, id⟩

theorem Onward.trans (h : Onward w w') (h' : Onward w' w'') : Onward w w'' where
  now_le := Nat.le_trans h.now_le h'.now_le
  unplanned hnone := h'.unplanned (h.unplanned hnone)

/-- No watcher is told anything either. -/
structure Background (w w' : Host) : Prop extends Onward w w' where
  notified : w'.notified = w.notified

theorem Background.of_eq (hnow : w'.now = w.now) (hfaults : w'.faults = w.faults)
    (hevents : w'.events = w.events) : Background w w' :=
  ⟨⟨Nat.le_of_eq hnow.symm, hfaults.trans⟩, congrArg (List.filterMap _) hevents⟩

theorem Background.refl (w : Host) : Background w w := .of_eq rfl rfl rfl

theorem Background.trans (h : Background w w') (h' : Background w' w'') : Background w w'' where
  toOnward := h.toOnward.trans h'.toOnward
  notified := h'.notified.trans h.notified

/-- Only the clock, the fault plan and the events matter. -/
theorem Background.congr (h : Background w w')
    (hbefore : (v.now, v.faults, v.events) = (w.now, w.faults, w.events))
    (hafter : (v'.now, v'.faults, v'.events) = (w'.now, w'.faults, w'.events)) :
    Background v v' := by
  simp only [Prod.mk.injEq] at hbefore hafter
  obtain ⟨hnow, hfaults, hevents⟩ := hbefore
  obtain ⟨hnow', hfaults', hevents'⟩ := hafter
  have hbefore : Background v w := .of_eq hnow.symm hfaults.symm hevents.symm
  exact (hbefore.trans h).trans (.of_eq hnow' hfaults' hevents')

/-- Nothing but faults, counts, gauges, events, interrupts and the clock may
differ. -/
structure Idle (w w' : Host) : Prop where
  background : Background w w'
  store : w'.store = w.store
  handles : w'.handles = w.handles
  readers : w'.readers = w.readers
  outcomes : w'.outcomes = w.outcomes
  journals : w'.journals = w.journals
  caches : w'.caches = w.caches
  observers : w'.observers = w.observers

theorem Idle.refl (w : Host) : Idle w w := ⟨.refl w, rfl, rfl, rfl, rfl, rfl, rfl, rfl⟩

theorem Idle.trans (h : Idle w w') (h' : Idle w' w'') : Idle w w'' where
  background := h.background.trans h'.background
  store := h'.store.trans h.store
  handles := h'.handles.trans h.handles
  readers := h'.readers.trans h.readers
  outcomes := h'.outcomes.trans h.outcomes
  journals := h'.journals.trans h.journals
  caches := h'.caches.trans h.caches
  observers := h'.observers.trans h.observers

/-! ### Calls on the store -/

/-- The store may differ, and what `Idle` allows. -/
structure StoreOnly (w w' : Host) : Prop where
  background : Background w w'
  handles : w'.handles = w.handles
  readers : w'.readers = w.readers
  outcomes : w'.outcomes = w.outcomes
  journals : w'.journals = w.journals
  caches : w'.caches = w.caches
  observers : w'.observers = w.observers

theorem Idle.storeOnly (h : Idle w w') : StoreOnly w w' :=
  ⟨h.background, h.handles, h.readers, h.outcomes, h.journals, h.caches, h.observers⟩

theorem StoreOnly.trans (h : StoreOnly w w') (h' : StoreOnly w' w'') : StoreOnly w w'' where
  background := h.background.trans h'.background
  handles := h'.handles.trans h.handles
  readers := h'.readers.trans h.readers
  outcomes := h'.outcomes.trans h.outcomes
  journals := h'.journals.trans h.journals
  caches := h'.caches.trans h.caches
  observers := h'.observers.trans h.observers

theorem StoreOnly.idle (h : StoreOnly w w') (hstore : w'.store = w.store) : Idle w w' :=
  ⟨h.background, hstore, h.handles, h.readers, h.outcomes, h.journals, h.caches, h.observers⟩

section Store

variable {α : Type} {action : StoreAction α} {c : StoreCall} {access : Access} {a : α}
  {e : StoreError}

/-- A call that succeeds did what it was to do to the store, and nothing else. -/
theorem ask_ok (h : w.ask action = (.ok a, w')) :
    action w.store = .ok (a, w'.store) ∧ StoreOnly w w' := by
  unfold ask at h
  split at h
  next => cases h
  next hact =>
    cases h
    exact ⟨hact, ⟨.of_eq rfl rfl rfl, rfl, rfl, rfl, rfl, rfl, rfl⟩⟩

theorem ask_error (h : w.ask action = (.error e, w')) : Idle w w' := by
  unfold ask at h
  split at h
  next => cases h; exact .refl w
  next => cases h

/-- Counting a call and using up a fault are no changes that a caller sees. -/
theorem enter_idle (w : Host) (c : StoreCall) : Idle w (w.enter c).2 := by
  unfold enter
  split
  next => exact .refl w
  next plan hplan =>
    refine ⟨⟨⟨Nat.le_refl _, fun hnone => ?_⟩, rfl⟩, rfl, rfl, rfl, rfl, rfl, rfl, rfl⟩
    rw [hplan] at hnone
    cases hnone

/-- A call that is answered was answered by the store. -/
theorem call_ok (h : w.call c action = (.ok a, w')) :
    action w.store = .ok (a, w'.store) ∧ StoreOnly w w' := by
  have hidle := enter_idle w c
  unfold call at h
  split at h
  next => cases h
  next entered =>
    rw [entered] at hidle
    obtain ⟨hact, honly⟩ := ask_ok h
    rw [hidle.store] at hact
    exact ⟨hact, hidle.storeOnly.trans honly⟩

/-- A call that fails leaves the host as it was, but for counts and the plan of faults. -/
theorem call_error (h : w.call c action = (.error e, w')) : Idle w w' := by
  have hidle := enter_idle w c
  unfold call at h
  split at h
  next entered =>
    cases h
    rwa [entered] at hidle
  next entered =>
    rw [entered] at hidle
    exact hidle.trans (ask_error h)

/-- A call moves no clock and tells nobody, whatever it does to the store. -/
theorem call_background (w : Host) (c : StoreCall) (action : StoreAction α) :
    Background w (w.call c action).2 := by
  cases hcall : w.call c action with
  | mk answer w' =>
      cases answer with
      | error e => exact (call_error hcall).background
      | ok a => exact (call_ok hcall).2.background

theorem send_ok (h : w.send access c action = (.ok a, w')) :
    action w.store = .ok (a, w'.store) ∧ StoreOnly w w' := by
  cases access with
  | planned => exact call_ok h
  | direct => exact ask_ok h

theorem send_error (h : w.send access c action = (.error e, w')) : Idle w w' := by
  cases access with
  | planned => exact call_error h
  | direct => exact ask_error h

/-- While a watcher is told, nothing becomes of the store, unless the watcher waits again. -/
theorem tellWatcher_store (w : Host) (notice : Notice) :
    (w.tellWatcher notice).store = w.store ∨
      ∃ waits, Store.watch notice.ledger notice.confirmed notice.watcher w.store =
        .ok (waits, (w.tellWatcher notice).store) := by
  unfold tellWatcher
  cases notice.watcher.reaction with
  | record => exact Or.inl rfl
  | rearm =>
      cases hcall : w.call .watch (Store.watch notice.ledger notice.confirmed notice.watcher) with
      | mk answer w' =>
          cases answer with
          | error e => exact Or.inl (call_error hcall).store
          | ok waits => exact Or.inr ⟨waits, (call_ok hcall).1⟩
  | read =>
      cases hcall : w.call .confirmed (Store.confirmed notice.ledger) with
      | mk answer w' =>
          cases answer with
          | error e => exact Or.inl (call_error hcall).store
          | ok c => exact Or.inl (Store.look_eq (call_ok hcall).1)

/-- Without a fault plan, every call is answered by the store. -/
theorem call_of_unplanned (hunplanned : w.faults = none) (c : StoreCall)
    (action : StoreAction α) : w.call c action = w.ask action := by
  unfold Host.call enter
  rw [hunplanned]

theorem send_of_unplanned (hunplanned : w.faults = none) (access : Access) (c : StoreCall)
    (action : StoreAction α) : w.send access c action = w.ask action := by
  cases access with
  | planned => exact call_of_unplanned hunplanned c action
  | direct => rfl

/-- An entry that the store refuses is told to nobody. -/
theorem append_of_refused (hunplanned : w.faults = none) (access : Access) {entry : Bytes}
    {cause : StoreError} (hrefused : Store.append entry w.store = .error cause) :
    w.append access entry = (.error cause, w) := by
  unfold append
  rw [send_of_unplanned hunplanned]
  unfold ask
  rw [hrefused]

end Store

/-! ### Checks and counts -/

theorem count_idle (w : Host) (c : Counter) (n : Nat) : Idle w (w.count c n) :=
  ⟨.of_eq rfl rfl rfl, rfl, rfl, rfl, rfl, rfl, rfl, rfl⟩

theorem emit_notified (w : Host) (e : Event) :
    (w.emit e).notified = w.notified ++ e.notice?.toList := by
  unfold notified emit
  dsimp only
  rw [List.filterMap_append]
  cases h : e.notice? <;> simp [h]

theorem emit_idle (w : Host) {e : Event} (h : e.notice? = none) : Idle w (w.emit e) := by
  have hsilent : (w.emit e).notified = w.notified := by simp [emit_notified, h]
  exact ⟨⟨⟨Nat.le_refl _, id⟩, hsilent⟩, rfl, rfl, rfl, rfl, rfl, rfl, rfl⟩

theorem showCached_idle (w : Host) (c : Nat) (kind : HandleKind) :
    Idle w (w.showCached c kind) := by
  cases kind <;> exact ⟨.of_eq rfl rfl rfl, rfl, rfl, rfl, rfl, rfl, rfl, rfl⟩

theorem checkAccess_idle (w : Host) (h : Nat) (presented : Bytes) :
    Idle w (w.checkAccess h presented).2 := by
  unfold checkAccess
  dsimp only
  split
  next => exact .refl w
  next => exact count_idle w _ _

/-- Looking at the key that the store has changes nothing. -/
theorem checkStoredKey_idle (w : Host) (l : LedgerId) (presented : Bytes) :
    Idle w (w.checkStoredKey l presented).2 := by
  unfold checkStoredKey
  split
  next hcall => exact call_error hcall
  next hcall => exact call_error hcall
  next hcall =>
    obtain ⟨hact, honly⟩ := call_ok hcall
    have hidle := honly.idle (Store.key_eq hact).1
    split
    next => exact hidle
    next => exact hidle.trans (count_idle _ _ _)

/-! ### Making and finding handles -/

/-- A handle was made for a ledger, under a key that the store holds now. -/
structure MakesHandle (l : LedgerId) (key : MasterKey) (w w' : Host) : Prop where
  background : Background w w'
  bound : Store.bindKey l key w.store = .ok ((), w'.store)
  handles : ∃ ack, w'.handles = w.handles.add (.create l key ack)
  readers : w'.readers = w.readers
  outcomes : w'.outcomes = w.outcomes
  journals : w'.journals = w.journals
  observers : w'.observers = w.observers

theorem createHandle_error {l : LedgerId} {key : MasterKey} {ack : Bool} {e : HandleError}
    (h : w.createHandle l key ack = (.error e, w')) : Idle w w' := by
  unfold createHandle at h
  split at h
  next hcall => cases h; exact call_error hcall
  next => cases h

/-- A handle is made with the next number, for the ledger and key that were given. -/
theorem createHandle_ok {l : LedgerId} {key : MasterKey} {ack : Bool} {made : Nat}
    (h : w.createHandle l key ack = (.ok made, w')) :
    made = w.handles.next ∧ MakesHandle l key w w' ∧ w'.caches = w.caches := by
  unfold createHandle at h
  split at h
  next => cases h
  next hcall =>
    cases h
    obtain ⟨hact, honly⟩ := call_ok hcall
    rw [honly.handles]
    exact ⟨rfl, ⟨honly.background.congr rfl rfl, hact, ⟨ack, rfl⟩, honly.readers, honly.outcomes,
      honly.journals, honly.observers⟩, honly.caches⟩

/-- A call before the making of a handle that leaves the host idle is part of
it, and so is one after it. -/
theorem MakesHandle.afterIdle {l : LedgerId} {key : MasterKey} (hidle : Idle w w')
    (h : MakesHandle l key w' w'') : MakesHandle l key w w'' where
  background := hidle.background.trans h.background
  bound := by rw [← hidle.store]; exact h.bound
  handles := by rw [← hidle.handles]; exact h.handles
  readers := h.readers.trans hidle.readers
  outcomes := h.outcomes.trans hidle.outcomes
  journals := h.journals.trans hidle.journals
  observers := h.observers.trans hidle.observers

theorem MakesHandle.thenIdle {l : LedgerId} {key : MasterKey} (h : MakesHandle l key w w')
    (hidle : Idle w' w'') : MakesHandle l key w w'' where
  background := h.background.trans hidle.background
  bound := by rw [hidle.store]; exact h.bound
  handles := by rw [hidle.handles]; exact h.handles
  readers := hidle.readers.trans h.readers
  outcomes := hidle.outcomes.trans h.outcomes
  journals := hidle.journals.trans h.journals
  observers := hidle.observers.trans h.observers

/-- What a look-up in a cache comes to: nothing happens, or a handle is made for
a ledger that had none in the cache, and is cached. -/
inductive Opens (c : Nat) (l : LedgerId) (presented : Bytes) (w w' : Host) : Prop where
  | idle (h : Idle w w')
  | makes (h : MakesHandle l ⟨presented⟩ w w')
      (uncached : (w.cacheAt c).writable.get? l = none)
      (caches : w'.caches = w.caches.modify c (·.addWritable l w.handles.next))

section Opening

variable {c : Nat} {l : LedgerId} {presented : Bytes}

theorem Opens.thenIdle (h : Opens c l presented w w') (hidle : Idle w' w'') :
    Opens c l presented w w'' := by
  cases h with
  | idle h => exact .idle (h.trans hidle)
  | makes h uncached caches =>
      exact .makes (h.thenIdle hidle) uncached (hidle.caches.trans caches)

/-- Making a handle either fails and changes nothing, or caches what it made. -/
theorem obtainHandle_opens (w : Host) (c : Nat) (l : LedgerId) (presented : Bytes) :
    Opens c l presented w (w.obtainHandle c l presented).2 := by
  unfold obtainHandle
  split
  next => exact .idle (.refl w)
  next uncached =>
    have hidle := checkStoredKey_idle w l presented
    split
    next hcheck =>
      rw [hcheck] at hidle
      exact .idle hidle
    next w₁ hcheck =>
      rw [hcheck] at hidle
      split
      next hcreate => exact .idle (hidle.trans (createHandle_error hcreate))
      next hcreate =>
        obtain ⟨rfl, hmade, hcaches⟩ := createHandle_ok hcreate
        have hmade := hmade.afterIdle hidle
        refine .makes ⟨hmade.background.congr rfl rfl, hmade.bound, hmade.handles, hmade.readers,
          hmade.outcomes, hmade.journals, hmade.observers⟩ uncached ?_
        unfold modifyCache
        rw [hcaches, hidle.caches, hidle.handles]

/-- Finding a handle makes none, or the one that it answers. -/
theorem findHandle_opens (w : Host) (c : Nat) (l : LedgerId) (presented : Bytes)
    (replay : Bool) : Opens c l presented w (w.findHandle c l presented replay).2 := by
  have hobtain := obtainHandle_opens w c l presented
  unfold findHandle
  split
  next => exact .idle (.refl w)
  next =>
    split
    -- the cache remembers that the ledger was deleted
    next => exact .idle (.refl w)
    next =>
      split
      next hmade =>
        rw [hmade] at hobtain
        exact hobtain
      next hmade =>
        rw [hmade] at hobtain
        exact hobtain.thenIdle (showCached_idle _ c .writable)

/-- A look-up makes a handle at most, and has it cached. -/
theorem openWritable_opens (w : Host) (c : Nat) (l : LedgerId) (presented : Bytes)
    (replay : Bool) : Opens c l presented w (w.openWritable c l presented replay).2 := by
  have hfind := findHandle_opens w c l presented replay
  unfold openWritable
  split
  next hfound =>
    rw [hfound] at hfind
    exact hfind.thenIdle (count_idle _ _ _)
  next h w₁ hfound =>
    rw [hfound] at hfind
    -- the handle may be cached already by now, whether access is granted or not
    have hcheck := checkAccess_idle w₁ h presented
    split
    next hdenied =>
      rw [hdenied] at hcheck
      exact hfind.thenIdle (hcheck.trans (count_idle _ _ _))
    next hgranted =>
      rw [hgranted] at hcheck
      exact hfind.thenIdle hcheck

end Opening

/-! ### Making and finding readers -/

/-- What a look-up of a reader comes to: nothing happens, or a reader of a held
ledger that had none in the cache is made, and is cached. -/
inductive OpensReader (c : Nat) (l : LedgerId) (w w' : Host) : Prop where
  | idle (h : Idle w w')
  | makes (held : w.store.ledgers.contains l = true)
      (only : StoreOnly { w with
        readers := w.readers.add l
        caches := w.caches.modify c (·.addReader l w.readers.next) } w')
      (store : w'.store = w.store) (uncached : (w.cacheAt c).readers.get? l = none)

/-- A reader that is not made leaves nothing behind. -/
theorem createReader_error {l : LedgerId} {e : HandleError}
    (h : w.createReader l = (.error e, w')) : Idle w w' := by
  unfold createReader at h
  split at h
  next hcall => cases h; exact call_error hcall
  next hcall =>
    cases h
    obtain ⟨hact, honly⟩ := call_ok hcall
    exact honly.idle (Store.holds_eq hact).1
  next => cases h

/-- A reader is made of a ledger that the store holds, and the store stays as it is. -/
theorem createReader_ok {l : LedgerId} {made : Nat} (h : w.createReader l = (.ok made, w')) :
    made = w.readers.next ∧ w.store.ledgers.contains l = true ∧ w'.store = w.store ∧
      StoreOnly { w with readers := w.readers.add l } w' := by
  unfold createReader at h
  split at h
  next => cases h
  next => cases h
  next hcall =>
    cases h
    obtain ⟨hact, honly⟩ := call_ok hcall
    obtain ⟨hstore, hheld⟩ := Store.holds_eq hact
    rw [honly.readers]
    exact ⟨rfl, hheld.symm, hstore, honly.background.congr rfl rfl, honly.handles, rfl,
      honly.outcomes, honly.journals, honly.caches, honly.observers⟩

/-- A look-up for reading opens a reader at most. -/
theorem openReader_opens (w : Host) (c : Nat) (l : LedgerId) :
    OpensReader c l w (w.openReader c l).2 := by
  unfold openReader
  split
  next => exact .idle (.refl w)
  next huncached =>
    split
    next hfailed => exact .idle ((createReader_error hfailed).trans (count_idle _ _ _))
    next hmade =>
      obtain ⟨rfl, hheld, hstore, honly⟩ := createReader_ok hmade
      refine .makes hheld ⟨honly.background.congr rfl rfl, honly.handles, honly.readers,
        honly.outcomes, honly.journals, ?_, honly.observers⟩ hstore huncached
      change Arena.modify _ c _ = _
      rw [honly.caches]

/-! ### Requests, entries and calls on handles -/

/-- The store may differ by a steady change, watchers may have been told, and what
`Idle` allows. -/
structure SteadyCall (w w' : Host) : Prop where
  onward : Onward w w'
  store : w.store.Steady w'.store
  handles : w'.handles = w.handles
  readers : w'.readers = w.readers
  outcomes : w'.outcomes = w.outcomes
  journals : w'.journals = w.journals
  caches : w'.caches = w.caches
  observers : w'.observers = w.observers

theorem StoreOnly.steadyCall (h : StoreOnly w w') (hsteady : w.store.Steady w'.store) :
    SteadyCall w w' :=
  ⟨h.background.toOnward, hsteady, h.handles, h.readers, h.outcomes, h.journals, h.caches,
    h.observers⟩

theorem Idle.steadyCall (h : Idle w w') : SteadyCall w w' :=
  h.storeOnly.steadyCall (h.store ▸ .refl w.store)

theorem SteadyCall.trans (h : SteadyCall w w') (h' : SteadyCall w' w'') : SteadyCall w w'' where
  onward := h.onward.trans h'.onward
  store := h.store.trans h'.store
  handles := h'.handles.trans h.handles
  readers := h'.readers.trans h.readers
  outcomes := h'.outcomes.trans h.outcomes
  journals := h'.journals.trans h.journals
  caches := h'.caches.trans h.caches
  observers := h'.observers.trans h.observers

/-- A request keeps the keys of the store, or binds a key to a ledger that was not there. -/
theorem request_cases (w : Host) (access : Access) (r : Request) :
    SteadyCall w (w.request access r).2 ∨
      ∃ l secret, r = .bindKey l secret ∧ StoreOnly w (w.request access r).2 ∧
        Store.Creates l ⟨secret⟩ w.store (w.request access r).2.store := by
  unfold request
  cases hsend : w.send access r.call r.action with
  | mk answer w₁ =>
      cases answer with
      | error e => exact Or.inl (send_error hsend).steadyCall
      | ok a =>
          obtain ⟨hact, honly⟩ := send_ok hsend
          rcases Store.request_cases hact with hsteady | ⟨l, secret, hr, hcreates⟩
          · exact Or.inl (honly.steadyCall hsteady)
          · exact Or.inr ⟨l, secret, hr, honly, hcreates⟩

/-- An action that keeps the keys keeps them when it is called. -/
theorem call_steadyCall {α : Type} {action : StoreAction α} (w : Host) (c : StoreCall)
    (hsteady : ∀ a s s', action s = .ok (a, s') → s.Steady s') :
    SteadyCall w (w.call c action).2 := by
  cases hcall : w.call c action with
  | mk answer w₁ =>
      cases answer with
      | error e => exact (call_error hcall).steadyCall
      | ok a =>
          obtain ⟨hact, honly⟩ := call_ok hcall
          exact honly.steadyCall (hsteady a _ _ hact)

theorem emit_steadyCall (w : Host) (e : Event) : SteadyCall w (w.emit e) :=
  ⟨⟨Nat.le_refl _, id⟩, .refl w.store, rfl, rfl, rfl, rfl, rfl, rfl⟩

/-- A watcher may wait again or read when it is told, and neither touches a key. -/
theorem tellWatcher_steadyCall (w : Host) (notice : Notice) :
    SteadyCall w (w.tellWatcher notice) := by
  unfold tellWatcher
  split
  next => exact emit_steadyCall w _
  next =>
    exact (call_steadyCall w .watch fun _ _ _ => Store.watch_steady).trans
      (emit_steadyCall _ _)
  next =>
    exact (call_steadyCall w .confirmed fun _ _ _ => Store.look_steady).trans
      (emit_steadyCall _ _)

theorem tellWatchers_steadyCall (w : Host) (notices : List Notice) :
    SteadyCall w (notices.foldl tellWatcher w) := by
  induction notices generalizing w with
  | nil => exact (Idle.refl w).steadyCall
  | cons notice notices ih => exact (tellWatcher_steadyCall w notice).trans (ih _)

/-- An entry and all the notices of it keep the keys. -/
theorem append_steadyCall (w : Host) (access : Access) (entry : Bytes) :
    SteadyCall w (w.append access entry).2 := by
  unfold append
  split
  next hsend => exact (send_error hsend).steadyCall
  next hsend =>
    obtain ⟨hact, honly⟩ := send_ok hsend
    exact (honly.steadyCall (Store.append_steady hact)).trans (tellWatchers_steadyCall _ _)

/-- A handle that passes a call on does nothing else. -/
theorem forward_host {r : Request} (w : Host) :
    (w.forward r).2 = (w.request .planned r).2 := by
  unfold forward
  rcases w.request .planned r with ⟨e | a', w'⟩ <;> rfl

/-- A handle submits an entry of its ledger, or refuses it and leaves the host as it is. -/
theorem appendThrough_host (w : Host) (l : LedgerId) (entry : Bytes) :
    (w.appendThrough l entry).2 = w ∨ Entry.readLedger entry = .ok l ∧
      (w.appendThrough l entry).2 = (w.append .planned entry).2 := by
  unfold appendThrough
  split
  next => exact Or.inl rfl
  next encoded hread =>
    split
    next => exact Or.inl rfl
    next hown =>
      obtain rfl : encoded = l := Decidable.not_not.mp hown
      refine Or.inr ⟨hread, ?_⟩
      rcases w.append .planned entry with ⟨e | id, w'⟩ <;> rfl

theorem use_access_host (w : Host) (h : Nat) (presented : Bytes) :
    (w.use (.writable h) (.access presented)).2 = (w.checkAccess h presented).2 := by
  unfold use useWritable
  dsimp only
  rcases w.checkAccess h presented with ⟨e | _, w'⟩ <;> rfl

/-- What a call on a handle does to the host. -/
inductive Uses (w : Host) (handle : HandleRef) (call : HandleCall) : Prop where
  /-- The handle refuses the call. -/
  | stays (host : (w.use handle call).2 = w)
  /-- The handle compares a key with its own. -/
  | compares (h : Nat) (presented : Bytes) (hhandle : handle = .writable h)
      (hcall : call = .access presented)
      (host : (w.use handle call).2 = (w.checkAccess h presented).2)
  /-- An entry is submitted, which is one of the handle's ledger. -/
  | submits (h : Nat) (entry : Bytes) (hhandle : handle = .writable h)
      (hcall : call = .append entry) (hread : Entry.readLedger entry = .ok (w.handleAt h).ledger)
      (host : (w.use handle call).2 = (w.append .planned entry).2)
  /-- A request is sent. -/
  | sends (r : Request) (hr : call.request? (w.ledgerOf handle) = some r)
      (host : (w.use handle call).2 = (w.request .planned r).2)

/-- Every call on a handle does one of these, and a reader only refuses calls or sends
requests. -/
theorem use_uses (w : Host) (handle : HandleRef) (call : HandleCall) : Uses w handle call := by
  cases handle with
  | reader r =>
      have hhost : (w.use (.reader r) call).2 = (w.useReader (w.ledgerOf (.reader r)) call).2 := rfl
      unfold useReader at hhost
      split at hhost
      next => exact .stays hhost
      next hr => exact .sends _ hr (hhost.trans (forward_host w))
      next => exact .stays hhost
  | writable h =>
      cases call with
      | access presented => exact .compares h presented rfl rfl (w.use_access_host h presented)
      | append entry =>
          rcases w.appendThrough_host (w.handleAt h).ledger entry with
            hrefused | ⟨hread, hsubmitted⟩
          · exact .stays hrefused
          · exact .submits h entry rfl rfl hread hsubmitted
      | _ => exact .sends _ rfl (forward_host w)

/-- A call on a handle touches no key, whatever it asks for. -/
theorem use_steadyCall (w : Host) (handle : HandleRef) (call : HandleCall) :
    SteadyCall w (w.use handle call).2 := by
  cases w.use_uses handle call with
  | stays host => exact host.symm ▸ (Idle.refl w).steadyCall
  | compares h presented _ _ host => exact host.symm ▸ (checkAccess_idle w h presented).steadyCall
  | submits h entry _ _ _ host => exact host.symm ▸ append_steadyCall w .planned entry
  | sends r hr host =>
      rw [host]
      -- no call on a handle binds a key
      rcases request_cases w .planned r with hsteady | ⟨l, secret, rfl, -⟩
      · exact hsteady
      · cases call <;> cases hr

end Host

end FencedLedger
