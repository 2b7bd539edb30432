import FencedLedger.Proofs.Effects
import FencedLedger.Proofs.KeyComparison

/-!
# Calls that fail

A call that answers an error leaves no trace. The store, the handles, the caches with
their memories, the outcomes, the journals with what they hold back, the raised flags
and the events are as they were, wherever on its way the call failed. The calls that it
made on the store by then passed the fault plan, and errors were counted. Entries that
somebody submits to a journal himself are left out: a journal may report on an entry
before it refuses it.
-/

namespace FencedLedger

/-- The plan behind calls of the given kinds. -/
def FaultPlan.behind (p : FaultPlan) (calls : List StoreCall) : FaultPlan :=
  calls.foldl (fun p c => (p.enter c).2) p

/-- Whether a counter counts errors. -/
def Counter.countsErrors : Counter → Bool
  | .unauthorized | .handleErrors _ => true
  | .fenceAttempts _ | .fencePersisted | .fenceLogFailures _ | .evictions => false

/-- Whether an operation submits an entry to a journal, with no handle in between. -/
def Op.submitsEntry : Op → Bool
  | .log .. => true
  | _ => false

/-- Nothing was counted but errors, and no gauge was set. -/
structure Metrics.OnlyErrors (m m' : Metrics) : Prop where
  counters : ∀ c, c.countsErrors = false → m'.counters.get? c = m.counters.get? c
  count_le : ∀ c, m.count c ≤ m'.count c
  gauges : m'.gauges = m.gauges

namespace Metrics.OnlyErrors

variable {m m' m'' : Metrics}

theorem refl (m : Metrics) : OnlyErrors m m := ⟨fun _ _ => rfl, fun _ => Nat.le_refl _, rfl⟩

theorem trans (h : OnlyErrors m m') (h' : OnlyErrors m' m'') : OnlyErrors m m'' where
  counters c hc := (h'.counters c hc).trans (h.counters c hc)
  count_le c := Nat.le_trans (h.count_le c) (h'.count_le c)
  gauges := h'.gauges.trans h.gauges

/-- Counting an error touches no other counter. -/
theorem add {c : Counter} (hc : c.countsErrors = true) (m : Metrics) (n : Nat) :
    OnlyErrors m (m.add c n) where
  counters c' hc' := by
    have hne : c ≠ c' := by
      rintro rfl
      cases hc.symm.trans hc'
    change (m.counters.insert c _).get? c' = _
    rw [Table.get?_insert, if_neg hne]
  count_le c' := by
    rw [count_add]
    exact Nat.le_add_right _ _
  gauges := rfl

end Metrics.OnlyErrors

namespace Host

variable {w w' w'' : Host}

/-- Nothing happened, but calls may have passed the fault plan and errors may have been
counted. -/
structure Intact (w w' : Host) : Prop where
  same : w' = { w with faults := w'.faults, metrics := w'.metrics }
  faults : ∃ calls, w'.faults = w.faults.map (FaultPlan.behind · calls)
  metrics : w.metrics.OnlyErrors w'.metrics

theorem Intact.refl (w : Host) : Intact w w := by
  refine ⟨rfl, ⟨[], ?_⟩, .refl w.metrics⟩
  cases w.faults <;> rfl

theorem Intact.trans (h : Intact w w') (h' : Intact w' w'') : Intact w w'' where
  same := h'.same.trans (by rw [h.same])
  faults := by
    obtain ⟨calls, hcalls⟩ := h.faults
    obtain ⟨calls', hcalls'⟩ := h'.faults
    refine ⟨calls ++ calls', ?_⟩
    rw [hcalls', hcalls, Option.map_map]
    congr 1
    funext p
    exact List.foldl_append.symm
  metrics := h.metrics.trans h'.metrics

theorem count_intact {c : Counter} (hc : c.countsErrors = true) (w : Host) (n : Nat) :
    Intact w (w.count c n) :=
  ⟨rfl, (Intact.refl w).faults, .add hc w.metrics n⟩

/-! ### Calls on the store -/

section Store

variable {α : Type} {action : StoreAction α} {c : StoreCall} {access : Access} {e : StoreError}
  {result : Except StoreError α}

/-- A call may use up a fault and be counted before it fails. -/
theorem enter_intact (w : Host) (c : StoreCall) : Intact w (w.enter c).2 := by
  unfold enter
  split
  next => exact .refl w
  next plan hplan =>
    refine ⟨rfl, ⟨[c], ?_⟩, .refl w.metrics⟩
    rw [hplan]
    rfl

/-- A call after which the store is the same changed nothing. -/
theorem ask_eq (h : w.ask action = (result, w')) (hstore : w'.store = w.store) : w' = w := by
  unfold ask at h
  split at h
  next => cases h; rfl
  next a store hact =>
    cases h
    obtain rfl : store = w.store := hstore
    rfl

/-- A call that leaves the store as it is leaves the rest alone. -/
theorem call_intact (h : w.call c action = (result, w')) (hstore : w'.store = w.store) :
    Intact w w' := by
  have hentered := enter_intact w c
  have hsame := (enter_idle w c).store
  unfold call at h
  split at h
  next he =>
    cases h
    rwa [he] at hentered
  next he =>
    rw [he] at hentered hsame
    obtain rfl := ask_eq h (hstore.trans hsame.symm)
    exact hentered

/-- A call that fails, by a fault or by the store, did nothing. -/
theorem send_intact (h : w.send access c action = (.error e, w')) : Intact w w' := by
  cases access with
  | planned => exact call_intact h (call_error h).store
  | direct =>
      obtain rfl := ask_eq h (ask_error h).store
      exact .refl _

end Store

/-! ### Checks and look-ups -/

variable {c : Nat} {l : LedgerId} {presented : Bytes} {replay : Bool} {e : HandleError}

theorem refuseKey_intact (w : Host) (l : LedgerId) : Intact w (w.refuseKey l).2 :=
  count_intact rfl w 1

/-- A wrong key is counted, and that is all. -/
theorem checkAccess_intact (w : Host) (h : Nat) (presented : Bytes) :
    Intact w (w.checkAccess h presented).2 := by
  unfold checkAccess
  dsimp only
  split
  next => exact .refl w
  next => exact refuseKey_intact w _

/-- Checking the stored key leaves no trace, whether the key is accepted or not. -/
theorem checkStoredKey_intact (w : Host) (l : LedgerId) (presented : Bytes) :
    Intact w (w.checkStoredKey l presented).2 := by
  unfold checkStoredKey
  split
  next hcall => exact call_intact hcall (call_error hcall).store
  next hcall => exact call_intact hcall (call_error hcall).store
  next hcall =>
    have hread := call_intact hcall (Store.key_eq (call_ok hcall).1).1
    split
    next => exact hread
    next => exact hread.trans (refuseKey_intact _ l)

theorem createHandle_intact {key : MasterKey} {ack : Bool}
    (h : w.createHandle l key ack = (.error e, w')) : Intact w w' := by
  unfold createHandle at h
  split at h
  next hcall => cases h; exact call_intact hcall (call_error hcall).store
  next => cases h

/-- A reader that cannot be made leaves nothing behind. -/
theorem createReader_intact (h : w.createReader l = (.error e, w')) : Intact w w' := by
  unfold createReader at h
  split at h
  next hcall => cases h; exact call_intact hcall (call_error hcall).store
  next hcall => cases h; exact call_intact hcall (Store.holds_eq (call_ok hcall).1).1
  next => cases h

/-- The key may have been read by then, but not written. -/
theorem obtainHandle_intact (h : w.obtainHandle c l presented = (.error e, w')) :
    Intact w w' := by
  have hcheck := checkStoredKey_intact w l presented
  unfold obtainHandle at h
  split at h
  next => cases h
  next =>
    split at h
    next hrefused =>
      cases h
      rwa [hrefused] at hcheck
    next hfits =>
      rw [hfits] at hcheck
      split at h
      next hcreate =>
        cases h
        exact hcheck.trans (createHandle_intact hcreate)
      next => cases h

/-- A look-up that is answered by no handle has made none. -/
theorem findHandle_intact (h : w.findHandle c l presented replay = (.error e, w')) :
    Intact w w' := by
  unfold findHandle at h
  split at h
  next => cases h
  next =>
    split at h
    -- the cache remembers that the ledger was deleted
    next => cases h; exact .refl w
    next =>
      split at h
      next hobtain => cases h; exact obtainHandle_intact hobtain
      next => cases h

/-- A handle that is made is made with the key presented. -/
theorem obtainHandle_accepts {made : Nat} (huncached : (w.cacheAt c).writable.get? l = none)
    (h : w.obtainHandle c l presented = (.ok made, w')) :
    (w'.handleAt made).key.accepts presented = true := by
  unfold obtainHandle at h
  rw [huncached] at h
  dsimp only at h
  split at h
  next => cases h
  next =>
    split at h
    next => cases h
    next hcreate =>
      cases h
      obtain ⟨rfl, hmade, -⟩ := createHandle_ok hcreate
      obtain ⟨ack, hhandles⟩ := hmade.handles
      unfold handleAt modifyCache
      rw [hhandles, Arena.get?_add_next]
      exact MasterKey.accepts_iff.mpr rfl

/-- Access to a handle that was found can be refused only if it was found in the cache. -/
theorem findHandle_accepts {made : Nat}
    (h : w.findHandle c l presented replay = (.ok made, w')) :
    w' = w ∨ (w'.handleAt made).key.accepts presented = true := by
  unfold findHandle at h
  split at h
  next => cases h; exact Or.inl rfl
  next huncached =>
    split at h
    next => cases h
    next =>
      split at h
      next => cases h
      next hobtain =>
        cases h
        have haccepts := obtainHandle_accepts huncached hobtain
        exact Or.inr haccepts

/-- A look-up that fails leaves no handle and nothing cached. -/
theorem openWritable_intact (h : w.openWritable c l presented replay = (.error e, w')) :
    Intact w w' := by
  unfold openWritable at h
  split at h
  next hfind =>
    cases h
    exact (findHandle_intact hfind).trans (count_intact rfl _ 1)
  next made w₁ hfind =>
    have hcheck := checkAccess_intact w₁ made presented
    split at h
    next hdenied =>
      rcases findHandle_accepts hfind with rfl | haccepts
      · cases h
        rw [hdenied] at hcheck
        exact hcheck.trans (count_intact rfl _ 1)
      · unfold checkAccess at hdenied
        rw [if_pos haccepts] at hdenied
        cases hdenied
    next => cases h

/-- A look-up for reading that fails leaves no reader and nothing cached. -/
theorem openReader_intact (h : w.openReader c l = (.error e, w')) : Intact w w' := by
  unfold openReader at h
  split at h
  next => cases h
  next =>
    split at h
    next hcreate =>
      cases h
      exact (createReader_intact hcreate).trans (count_intact rfl _ 1)
    next => cases h

/-! ### Requests, entries and deletions -/

theorem append_intact {access : Access} {entry : Bytes} {e : StoreError}
    (h : w.append access entry = (.error e, w')) : Intact w w' := by
  unfold append at h
  split at h
  next hsend => cases h; exact send_intact hsend
  next => cases h

theorem remove_intact {access : Access} {e : StoreError}
    (h : w.remove access l = (.error e, w')) : Intact w w' := by
  unfold remove at h
  split at h
  next hsend => cases h; exact send_intact hsend
  next => cases h

/-! ### Calls on handles -/

theorem forward_intact {r : Request} (h : w.forward r = (.error e, w')) : Intact w w' := by
  unfold forward at h
  split at h
  next hrequest => cases h; exact send_intact hrequest
  next => cases h

/-- An entry that is refused on its way through a handle leaves nothing behind. -/
theorem appendThrough_intact {entry : Bytes} (h : w.appendThrough l entry = (.error e, w')) :
    Intact w w' := by
  unfold appendThrough at h
  split at h
  next => cases h; exact .refl w
  next =>
    split at h
    next => cases h; exact .refl w
    next =>
      split at h
      next happend => cases h; exact append_intact happend
      next => cases h

/-- A call that fails did nothing, whether the handle or the store refused. -/
theorem use_intact {handle : HandleRef} {call : HandleCall}
    (h : w.use handle call = (.error e, w')) : Intact w w' := by
  cases handle with
  | writable made =>
      change w.useWritable made call = _ at h
      unfold useWritable at h
      dsimp only at h
      split at h
      next presented =>
        -- a denial is counted and does nothing else
        have hcheck := checkAccess_intact w made presented
        split at h
        next hdenied =>
          cases h
          rwa [hdenied] at hcheck
        next => cases h
      next => exact appendThrough_intact h
      next =>
        split at h
        next => exact forward_intact h
        next => cases h
  | reader r =>
      change w.useReader _ call = _ at h
      unfold useReader at h
      split at h
      next => cases h; exact .refl w
      next => exact forward_intact h
      next => cases h

/-- A fence call fails in its first step or not at all, so nothing was decided and no
journal was asked. -/
theorem decideFence_intact {h : Nat} (hfailed : w.decideFence h = (.error e, w')) :
    Intact w w' := by
  unfold decideFence at hfailed
  split at hfailed
  next hcall => cases hfailed; exact call_intact hcall (call_error hcall).store
  next => cases hfailed
  next => cases hfailed

/-- A durable call fails only at its decision, before anything was appended. -/
theorem fenceThrough_intact {submit : Submit} {t : Thread} {handle : HandleRef}
    (h : w.fenceThrough submit t handle = (.error e, w')) : Intact w w' := by
  cases handle with
  | writable made =>
      change w.fenceWith submit t made = _ at h
      unfold fenceWith at h
      split at h
      next hdecide => cases h; exact decideFence_intact hdecide
      next => cases h
  | reader r => cases h; exact .refl w

/-! ### Operations -/

theorem answer_intact {ε α : Type} {wrap : ε → Failure} {f : α → Answer}
    {r : Except ε α × Host} {cause : Failure} (h : (answer wrap f r).1 = .error cause)
    (hr : ∀ e w', r = (.error e, w') → Intact w w') : Intact w (answer wrap f r).2 := by
  obtain ⟨e | a, w'⟩ := r
  · exact hr e w' rfl
  · cases h

/-- An object that is not there fails the operation before it starts. -/
theorem whenHeld_intact {held : Bool} {r : Except Failure Answer × Host} {cause : Failure}
    (h : (w.whenHeld held r).1 = .error cause) (hr : r.1 = .error cause → Intact w r.2) :
    Intact w (w.whenHeld held r).2 := by
  unfold whenHeld at h ⊢
  split at h
  next hheld =>
    rw [if_pos hheld]
    exact hr h
  next hgone =>
    rw [if_neg hgone]
    exact .refl w

/-- On every host, an operation that answers an error leaves no trace, submissions to
journals apart. -/
theorem errors_leave_no_trace (w : Host) {op : Op} (hop : op.submitsEntry = false)
    {cause : Failure} (h : (w.perform op).1 = .error cause) : Intact w (w.perform op).2 := by
  cases op with
  | request access r => exact answer_intact h fun _ _ => send_intact
  | append access entry => exact answer_intact h fun _ _ => append_intact
  | remove access l => exact answer_intact h fun _ _ => remove_intact
  | openWritable c l presented replay =>
      exact whenHeld_intact h fun h => answer_intact h fun _ _ => openWritable_intact
  | openReader c l =>
      exact whenHeld_intact h fun h => answer_intact h fun _ _ => openReader_intact
  | createHandle l key ack => exact answer_intact h fun _ _ => createHandle_intact
  | createReader l => exact answer_intact h fun _ _ => createReader_intact
  | use handle call =>
      exact whenHeld_intact h fun h => answer_intact h fun _ _ => use_intact
  | fence handle path thread =>
      exact whenHeld_intact h fun h => answer_intact h fun _ _ => fenceThrough_intact
  | log => cases hop
  | unobserve | releaseCache | tellCache | releaseJournal =>
      refine whenHeld_intact h fun h => ?_
      cases h
  | observe | planFault | clearFaults | createCache | createMemoryJournal
  | createScriptedJournal | shutDown | setMode | queueFailure | completeNext | completeAll
  | dropNext | createOutcome | raise | takeInterrupt | startWorker => cases h

/-- A ledger is opened while keys cannot be written to the store. -/
def openingWithoutKey : Except Failure Answer × Host :=
  ((start (some .empty)).run
    [.createCache .standard, .planFault .bindKey ⟨some 1, .io "disk full"⟩]).perform
      (.openWritable 0 ⟨1⟩ [0x6b] false)

/-- The look-up reads the stored key, finds none, and fails to write one. The plan has
seen both calls, and the fault is spent. -/
theorem openingWithoutKey_leaves_no_trace :
    openingWithoutKey.1 = .error (.handle (.store (.io "disk full"))) ∧
      openingWithoutKey.2.faults.map (fun p => (p.count .key, p.count .bindKey, p.armed.size)) =
        some (1, 1, 0) ∧
      Intact ((start (some .empty)).run
        [.createCache .standard, .planFault .bindKey ⟨some 1, .io "disk full"⟩])
        openingWithoutKey.2 := by
  refine ⟨rfl, by decide, ?_⟩
  exact @errors_leave_no_trace _ (.openWritable 0 ⟨1⟩ [0x6b] false) rfl _ rfl

end Host

end FencedLedger
