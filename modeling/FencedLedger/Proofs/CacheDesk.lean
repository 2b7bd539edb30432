import FencedLedger.Proofs.StoreCalls
import FencedLedger.Proofs.StoreSteps

/-!
# What callers of caches see

Those who look ledgers up see caches, the observers who are told of deletions, the gauges,
and how many were refused. Requests to the store, entries and the watchers who are told of
them, and everything about fencing leave all of that alone, although some of it is counted
elsewhere.
-/

namespace FencedLedger

/-- What refuses a caller: a look-up for writing, a look-up for reading, or a writable handle
that a key is presented to. -/
inductive Gate where
  | writing
  | reading
  | access
  deriving DecidableEq

/-- An error that a caller was refused with. -/
structure Refusal where
  gate : Gate
  error : HandleError

/-- Whether a counter counts refusals. -/
def Counter.countsRefusals : Counter → Bool
  | .unauthorized | .handleErrors _ => true
  | .fenceAttempts _ | .fencePersisted | .fenceLogFailures _ | .evictions => false

/-- Whether a counter counts a refusal: wrong keys count on look-ups for writing and on
handles, and the codes of errors on look-ups of both kinds. -/
def Counter.tallies : Counter → Refusal → Bool
  | .unauthorized, ⟨.writing, .unauthorized _⟩ | .unauthorized, ⟨.access, .unauthorized _⟩ => true
  | .handleErrors code, ⟨.writing, e⟩ | .handleErrors code, ⟨.reading, e⟩ => e.code = code
  | _, _ => false

/-- The refusal of an observer who looked a deleted ledger up again. -/
def Event.refusal? : Event → Option Refusal
  | .deleted _ _ _ _ (some (.error e)) => some ⟨.writing, e⟩
  | _ => none

/-- The refusal that an answer is. -/
def refusalOf {α : Type} (gate : Gate) : Except HandleError α → List Refusal
  | .ok _ => []
  | .error e => [⟨gate, e⟩]

/-- What callers of caches see of a host: the caches, who observes deletions, and what is
shown and counted of look-ups. -/
structure Desk where
  caches : Arena Cache
  observers : Arena Observer
  gauges : Table HandleKind Nat
  counts : Counter → Nat
  toldRefusals : List Refusal

namespace Host

/-- The refusals that events tell of, oldest first. -/
def toldRefusals (w : Host) : List Refusal := w.events.filterMap Event.refusal?

/-- How often a counter that counts refusals was incremented. -/
def refusals (w : Host) (c : Counter) : Nat := if c.countsRefusals then w.metrics.count c else 0

/-- What callers of caches see of a host. -/
def desk (w : Host) : Desk := ⟨w.caches, w.observers, w.metrics.gauges, w.refusals, w.toldRefusals⟩

/-! ### What callers of caches do not see -/

/-- A counter of refusals goes up by what is counted of it, and no other does. -/
theorem refusals_count (w : Host) (c : Counter) (n : Nat) (c' : Counter) :
    (w.count c n).refusals c' =
      w.refusals c' + if c = c' ∧ c.countsRefusals = true then n else 0 := by
  unfold refusals
  change (if _ then (w.metrics.add c n).count c' else 0) = _
  rw [Metrics.count_add]
  by_cases hc : c = c'
  · subst hc
    by_cases hcounts : c.countsRefusals = true <;> simp [hcounts]
  · simp [hc]

/-- Most counters are kept elsewhere. -/
theorem count_desk (w : Host) {c : Counter} (hc : c.countsRefusals = false) (n : Nat) :
    (w.count c n).desk = w.desk := by
  have hcounts : (w.count c n).refusals = w.refusals := by
    funext c'
    rw [refusals_count, if_neg (by simp [hc]), Nat.add_zero]
  unfold desk
  rw [hcounts]
  rfl

/-- The only events at the desk are those of observers who were refused. -/
theorem emit_desk (w : Host) {e : Event} (he : e.refusal? = none) : (w.emit e).desk = w.desk := by
  have htold : (w.emit e).toldRefusals = w.toldRefusals := by
    simp [toldRefusals, emit, List.filterMap_append, he]
  unfold desk
  rw [htold]
  rfl

section Store

variable {α : Type} (w : Host)

theorem ask_desk (action : StoreAction α) : (w.ask action).2.desk = w.desk := by
  unfold ask
  split <;> rfl

/-- A call to the store counts itself, which callers of caches do not see. -/
theorem call_desk (c : StoreCall) (action : StoreAction α) :
    (w.call c action).2.desk = w.desk := by
  have hentered : (w.enter c).2.desk = w.desk := by
    unfold enter
    split <;> rfl
  unfold Host.call
  split
  next heq => rwa [heq] at hentered
  next w₁ heq =>
    rw [heq] at hentered
    exact (w₁.ask_desk action).trans hentered

theorem send_desk (access : Access) (c : StoreCall) (action : StoreAction α) :
    (w.send access c action).2.desk = w.desk := by
  cases access with
  | planned => exact w.call_desk c action
  | direct => exact w.ask_desk action

end Store

theorem tellWatcher_desk (w : Host) (notice : Notice) : (w.tellWatcher notice).desk = w.desk := by
  unfold tellWatcher
  split
  next => exact w.emit_desk rfl
  next => exact (emit_desk _ rfl).trans (w.call_desk _ _)
  next => exact (emit_desk _ rfl).trans (w.call_desk _ _)

/-- An entry tells watchers, and those are not at the desk. -/
theorem append_desk (w : Host) (access : Access) (entry : Bytes) :
    (w.append access entry).2.desk = w.desk := by
  have hsent := w.send_desk access .append (Store.append entry)
  unfold Host.append
  split
  next heq => rwa [heq] at hsent
  next id notices w₁ heq =>
    rw [heq] at hsent
    refine Eq.trans ?_ hsent
    exact foldl_holds (R := fun w w' => w'.desk = w.desk) (fun _ => rfl) (fun h h' => h'.trans h)
      tellWatcher_desk notices w₁

theorem createHandle_desk (w : Host) (l : LedgerId) (key : MasterKey) (ack : Bool) :
    (w.createHandle l key ack).2.desk = w.desk := by
  have hcall := w.call_desk .bindKey (Store.bindKey l key)
  unfold createHandle
  split
  next heq => rwa [heq] at hcall
  next heq => rwa [heq] at hcall

theorem createReader_desk (w : Host) (l : LedgerId) : (w.createReader l).2.desk = w.desk := by
  have hcall := w.call_desk .holds (Store.holds l)
  unfold createReader
  split
  next heq => rwa [heq] at hcall
  next heq => rwa [heq] at hcall
  next heq => rwa [heq] at hcall

/-- No call on a handle is seen, unless it presents a key. -/
theorem use_desk (w : Host) (handle : HandleRef) {call : HandleCall}
    (hcall : ∀ h presented, handle = .writable h → call ≠ .access presented) :
    (w.use handle call).2.desk = w.desk := by
  cases w.use_uses handle call with
  | stays host => rw [host]
  | compares h presented hhandle haccess => exact absurd haccess (hcall h presented hhandle)
  | submits h entry _ _ _ host => exact host.symm ▸ w.append_desk .planned entry
  | sends r _ host => exact host.symm ▸ w.send_desk .planned _ _

/-! ### Fencing -/

/-- A durable mark is set on a handle, and counted on a counter of fencing. -/
theorem noteMarker_desk (w : Host) (h : Nat) (code : ReturnCode) :
    (w.noteMarker h code).desk = w.desk := by
  unfold noteMarker markPersisted
  split
  next =>
    split
    next => rfl
    next => exact count_desk _ rfl 1
  next => exact w.count_desk rfl 1

theorem decideAgain_desk (w : Host) (h : Nat) : (w.decideAgain h).2.desk = w.desk := by
  unfold decideAgain
  split
  next => exact w.count_desk (c := .fenceAttempts .alreadyPersisted) rfl 1
  next =>
    split
    next => exact w.count_desk rfl 1
    next => exact w.count_desk (c := .fenceAttempts .retry) rfl 1

/-- A decision counts its path, and the gauges do not show paths. -/
theorem decideFence_desk (w : Host) (h : Nat) : (w.decideFence h).2.desk = w.desk := by
  have hcall := w.call_desk .fence (Store.fence (w.handleAt h).ledger)
  unfold decideFence
  split
  next heq => rwa [heq] at hcall
  next w₁ heq =>
    rw [heq] at hcall
    exact (w₁.count_desk (c := .fenceAttempts .first) rfl 1).trans hcall
  next w₁ heq =>
    rw [heq] at hcall
    exact (w₁.decideAgain_desk h).trans hcall

/-- Nobody who looks a ledger up sees anything of fencing. -/
theorem desk_holdsOfFencing : HoldsOfFencing fun w w' => w'.desk = w.desk where
  refl _ := rfl
  trans h h' := h'.trans h
  journals _ _ := rfl
  interrupts _ _ := rfl
  complete w callback report := by
    cases callback with
    | fence h o => exact w.noteMarker_desk h report.code
    | report label => exact w.emit_desk rfl
  abandon _ callback := by cases callback <;> rfl
  decide := decideFence_desk
  refuse w t o cause := by
    cases cause with
    | interrupted =>
        exact count_desk { w with interrupts := w.interrupts.raise t }
          (c := .fenceLogFailures .interrupted) rfl 1
    | shutDown => exact w.count_desk (c := .fenceLogFailures .journal) rfl 1
  refenced w _ := w.emit_desk rfl

end Host

/-- Whether an operation concerns look-ups: it makes one, presents a key to a writable handle,
tells of a deletion, or lets somebody who is told of deletions come or go. -/
def Op.concernsCaches : Op → Bool
  | .openWritable .. | .openReader .. | .use (.writable _) (.access _) | .remove ..
  | .tellCache .. | .observe _ | .unobserve _ | .createCache _ | .releaseCache _ => true
  | _ => false

namespace Host

/-- Whatever is no look-up and no deletion leaves the desk alone. -/
theorem perform_desk (w : Host) {op : Op} (hop : op.concernsCaches = false) :
    (w.perform op).2.desk = w.desk := by
  cases hfencing : op.concernsFencing with
  | true => exact desk_holdsOfFencing.perform (fun _ _ => rfl) w hfencing
  | false =>
      cases op with
      | request access r => exact (answer_host _ _ _).symm ▸ w.send_desk _ _ _
      | append access entry => exact (answer_host _ _ _).symm ▸ w.append_desk access entry
      | createHandle l key ack =>
          exact (answer_host _ _ _).symm ▸ w.createHandle_desk l ⟨key⟩ ack
      | createReader l => exact (answer_host _ _ _).symm ▸ w.createReader_desk l
      | use handle call =>
          refine whenHeld_host (P := fun w' => w'.desk = w.desk) rfl ?_
          rw [answer_host]
          refine w.use_desk handle fun h presented hhandle hcall => ?_
          subst hhandle hcall
          cases hop
      | planFault | clearFaults | raise | takeInterrupt | startWorker => rfl
      | observe | unobserve | createCache | releaseCache | openWritable | openReader | tellCache
      | remove => cases hop
      | _ => cases hfencing

end Host

end FencedLedger
