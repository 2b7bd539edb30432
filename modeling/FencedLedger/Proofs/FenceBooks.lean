import FencedLedger.Proofs.OutcomeInvariant
import FencedLedger.Proofs.QueueRuns
import FencedLedger.Proofs.StoreAsks
import Mathlib.Algebra.BigOperators.Group.Finset.Basic
import Mathlib.Tactic.Abel

/-!
# The books of fencing

What fence calls do is written into books beside the host: how many calls were
answered, which markers are still to be submitted, which were taken by a journal, whose
callbacks are being run, and what became of them. The counters of the host agree with
the books after each step that a call, a journal or a callback takes. The books are
written from decisions, verdicts and queues and never from a counter.
-/

namespace FencedLedger

/-! ### What is written down -/

/-- The marker whose append ended with success, or with a failure. -/
def MarkerEvent.completed? (ok : Bool) : MarkerEvent → Option (Nat × Nat)
  | .completed h o code => if code.isOk = ok then some (h, o) else none
  | _ => none

/-- The marker whose callback was let go of. -/
def MarkerEvent.dropped? : MarkerEvent → Option (Nat × Nat)
  | .dropped h o => some (h, o)
  | _ => none

/-- The markers whose appends ended with success, or with a failure. -/
def completedWith (ok : Bool) (log : List MarkerEvent) : List (Nat × Nat) :=
  log.filterMap (MarkerEvent.completed? ok)

/-- The markers whose callbacks were let go of. -/
def droppedIn (log : List MarkerEvent) : List (Nat × Nat) :=
  log.filterMap MarkerEvent.dropped?

section Log

variable (ok : Bool) (log log' : List MarkerEvent) (callback : Callback) (code : ReturnCode)

@[simp] theorem completedWith_append :
    completedWith ok (log ++ log') = completedWith ok log ++ completedWith ok log' :=
  List.filterMap_append

@[simp] theorem droppedIn_append : droppedIn (log ++ log') = droppedIn log ++ droppedIn log' :=
  List.filterMap_append

@[simp] theorem completedWith_completedEvents :
    completedWith ok (callback.completedEvents code) =
      if code.isOk = ok then callback.marker?.toList else [] := by
  cases callback with
  | report label => simp [completedWith, Callback.completedEvents, Callback.marker?]
  | fence h o =>
      by_cases hok : code.isOk = ok <;>
        simp [completedWith, Callback.completedEvents, Callback.marker?, MarkerEvent.completed?,
          hok]

@[simp] theorem droppedIn_completedEvents : droppedIn (callback.completedEvents code) = [] := by
  cases callback <;> rfl

@[simp] theorem completedWith_droppedEvents :
    completedWith ok callback.droppedEvents = [] := by
  cases callback <;> rfl

@[simp] theorem droppedIn_droppedEvents :
    droppedIn callback.droppedEvents = callback.marker?.toList := by
  cases callback <;> rfl

end Log

/-- What fence calls did so far. A marker is its handle and its outcome. -/
structure FenceBooks where
  /-- How many fence calls were answered with an outcome. -/
  answered : Nat
  /-- The markers of calls that were decided on and submit next. -/
  hand : List (Nat × Nat)
  /-- The markers that journals took. -/
  taken : List (Nat × Nat)
  /-- The markers whose callbacks are being run or let go of. -/
  running : List (Nat × Nat)
  /-- What became of markers. -/
  log : List MarkerEvent

/-- Fence calls of all paths. -/
def Metrics.attempts (m : Metrics) : Nat :=
  m.count (.fenceAttempts .first) + m.count (.fenceAttempts .alreadyPersisted) +
    m.count (.fenceAttempts .inFlight) + m.count (.fenceAttempts .retry)

namespace Host

/-- The markers whose callbacks journals hold back. -/
def heldMarkers (w : Host) : Multiset (Nat × Nat) :=
  ∑ id ∈ Finset.range w.journals.next, ↑((w.heldBy id).filterMap (·.callback.marker?))

/-- The handles that are marked. -/
def markedHandles (w : Host) : Finset Nat :=
  (Finset.range w.handles.next).filter fun h => (w.handleAt h).persisted = true

/-- The counters agree with the books. -/
structure Balanced (b : FenceBooks) (w : Host) : Prop where
  /-- Every call that was answered is counted on its path. -/
  attempts : w.metrics.attempts = b.answered
  /-- The marker of a call that appends is taken, or its refusal is counted. -/
  submitted : w.metrics.count (.fenceAttempts .first) + w.metrics.count (.fenceAttempts .retry) =
    b.taken.length + w.metrics.count (.fenceLogFailures .interrupted) +
      w.metrics.count (.fenceLogFailures .journal) + b.hand.length
  /-- Every failure that a journal reports is counted. -/
  failures : w.metrics.count (.fenceLogFailures .code) = (completedWith false b.log).length
  /-- A marker that was taken ended in one of the ways, or its callback is there. -/
  ends : (b.taken : Multiset (Nat × Nat)) = ↑(completedWith true b.log) +
    ↑(completedWith false b.log) + ↑(droppedIn b.log) + ↑b.running + w.heldMarkers
  /-- Handles are counted once, however often their appends succeeded. -/
  persisted : w.metrics.count .fencePersisted = w.markedHandles.card
  /-- The marked handles are those of which an append succeeded. -/
  marked : w.markedHandles = ((completedWith true b.log).map Prod.fst).toFinset
  /-- No two markers share an outcome. -/
  distinct : ((b.hand ++ b.taken).map Prod.snd).Nodup
  known : ∀ m ∈ b.hand ++ b.taken, w.handles.holds m.1 = true ∧ m.2 < w.outcomes.next

variable {w w' w'' : Host}

/-! ### Queues -/

/-- The markers that journals hold, counted journal by journal up to any bound. -/
theorem heldMarkers_eq (w : Host) {n : Nat} (hn : w.journals.next ≤ n) :
    w.heldMarkers =
      ∑ id ∈ Finset.range n, ↑((w.heldBy id).filterMap (·.callback.marker?)) := by
  apply Finset.sum_subset (Finset.range_mono hn)
  intro id _ hid
  -- there is no journal beyond the last one that was made
  rw [Finset.mem_range, Nat.not_lt] at hid
  rw [heldBy_eq, w.journals.get?_of_next_le hid]
  rfl

theorem heldMarkers_of_journals (h : w'.journals = w.journals) :
    w'.heldMarkers = w.heldMarkers := by
  unfold heldMarkers
  simp only [h, heldBy_of_journals h]

/-- What leaves one queue or enters it is all that changes. -/
theorem Requeues.heldMarkers {id : Nat} {queue : List Held} (h : Requeues id queue w w') :
    w'.heldMarkers + ↑((w.heldBy id).filterMap (·.callback.marker?)) =
      w.heldMarkers + ↑(queue.filterMap (·.callback.marker?)) := by
  obtain ⟨n, hn, hn', hid⟩ : ∃ n, w.journals.next ≤ n ∧ w'.journals.next ≤ n ∧
      id ∈ Finset.range n := by
    refine ⟨w.journals.next + w'.journals.next + id + 1, by omega, by omega, ?_⟩
    rw [Finset.mem_range]
    omega
  have hothers : ∀ k ∈ (Finset.range n).erase id,
      ((w'.heldBy k).filterMap (·.callback.marker?) : Multiset (Nat × Nat)) =
        ↑((w.heldBy k).filterMap (·.callback.marker?)) := by
    intro k hk
    rw [h.others k (Finset.ne_of_mem_erase hk).symm]
  rw [w.heldMarkers_eq hn, w'.heldMarkers_eq hn', ← Finset.add_sum_erase _ _ hid,
    ← Finset.add_sum_erase _ _ hid, Finset.sum_congr rfl hothers, h.queue]
  abel

theorem Requeues.heldMarkers_same {id : Nat} {queue : List Held} (h : Requeues id queue w w')
    (hsame : queue.filterMap (·.callback.marker?) =
      (w.heldBy id).filterMap (·.callback.marker?)) : w'.heldMarkers = w.heldMarkers := by
  have hqueue := h.heldMarkers
  rw [hsame] at hqueue
  exact add_right_cancel hqueue

theorem Requeues.heldMarkers_take {id : Nat} {taken rest : List Held}
    (h : Requeues id rest w w') (hheld : w.heldBy id = taken ++ rest) :
    w.heldMarkers = ↑(taken.filterMap (·.callback.marker?)) + w'.heldMarkers := by
  have hqueue := h.heldMarkers
  rw [hheld, List.filterMap_append, ← Multiset.coe_add, ← add_assoc] at hqueue
  rw [← add_right_cancel hqueue, add_comm]

/-! ### Marks -/

/-- A handle counts as marked if it has its mark. -/
theorem mem_markedHandles {h : Nat} :
    h ∈ w.markedHandles ↔ (w.handleAt h).persisted = true := by
  unfold markedHandles
  rw [Finset.mem_filter, Finset.mem_range]
  refine ⟨And.right, fun hmarked => ⟨?_, hmarked⟩⟩
  -- a handle that was not made is not marked
  by_contra hnone
  rw [handleAt, w.handles.get?_of_next_le (Nat.le_of_not_lt hnone)] at hmarked
  cases hmarked

/-- Handles that were there are there, and their marks are as they were. -/
structure KeepsMarks (w w' : Host) : Prop where
  holds : ∀ {h}, w.handles.holds h = true → w'.handles.holds h = true
  persisted : ∀ h, (w'.handleAt h).persisted = (w.handleAt h).persisted
  outcomes : w.outcomes.next ≤ w'.outcomes.next

theorem keepsMarks_of_eq (hhandles : w'.handles = w.handles)
    (houtcomes : w.outcomes.next ≤ w'.outcomes.next) : KeepsMarks w w' where
  holds hh := by rwa [hhandles]
  persisted h := by rw [handleAt_of_handles hhandles]
  outcomes := houtcomes

theorem Requeues.keepsMarks {id : Nat} {queue : List Held} (h : Requeues id queue w w') :
    KeepsMarks w w' :=
  keepsMarks_of_eq h.handles (Nat.le_of_eq (congrArg Arena.next h.outcomes.symm))

theorem Calm.keepsMarks (h : Calm w w') : KeepsMarks w w' where
  holds hh := by
    obtain ⟨x, hx⟩ := Option.isSome_iff_exists.mp hh
    exact Option.isSome_iff_exists.mpr ⟨x, h.handles.kept hx⟩
  persisted := HandlesGrow.persisted_eq h.handles
  outcomes := Nat.le_of_eq (congrArg Arena.next h.outcomes.symm)

/-- Putting up an outcome is no mark. -/
theorem PutsUp.keepsMarks {h : Nat} (hputs : PutsUp h w w') : KeepsMarks w w' where
  holds hh := by rwa [hputs.handles, Arena.holds_modify]
  persisted i := by
    unfold handleAt
    rw [hputs.handles, Arena.get?_modify]
    split
    next => cases w.handles.get? i <;> rfl
    next => rfl
  outcomes := by
    rw [hputs.outcomes, Arena.next_add]
    exact Nat.le_succ _

theorem KeepsMarks.markedHandles (h : KeepsMarks w w') : w'.markedHandles = w.markedHandles := by
  ext i
  rw [mem_markedHandles, mem_markedHandles, h.persisted]

/-- A success marks the handle. -/
theorem markedHandles_noteMarker {h : Nat} (hknown : w.handles.holds h = true)
    (code : ReturnCode) :
    (w.noteMarker h code).markedHandles =
      if code.isOk then insert h w.markedHandles else w.markedHandles := by
  have hends : EndsHandles (.completed h 0 code) w (w.noteMarker h code) :=
    noteMarker_endsHandles hknown
  ext i
  rw [mem_markedHandles, hends.marks]
  split
  next hok =>
    rw [Finset.mem_insert, mem_markedHandles, or_comm]
    refine or_congr_left ⟨?_, ?_⟩
    · rintro ⟨o, code', heq, -⟩
      cases heq
      rfl
    · rintro rfl
      exact ⟨0, code, rfl, hok⟩
  next hfailed =>
    rw [mem_markedHandles]
    refine or_iff_left ?_
    rintro ⟨o, code', heq, hok⟩
    cases heq
    exact hfailed hok

/-! ### Counts -/

/-- Of what is counted about fencing, one count went up by one, or none. -/
def Counts (counted : Option Counter) (w w' : Host) : Prop :=
  ∀ c, c.concernsFencing = true →
    w'.metrics.count c = w.metrics.count c + if counted = some c then 1 else 0

theorem counts_of_metrics (h : w'.metrics = w.metrics) : Counts none w w' := by
  intro c _
  rw [h]
  rfl

theorem counts_of_add {c : Counter} (h : w'.metrics = w.metrics.add c 1) :
    Counts (some c) w w' := by
  intro c' _
  rw [h, Metrics.count_add]
  simp only [Option.some.injEq]

theorem Works.counts_none {kinds : Event → Bool} (h : Works kinds w w') : Counts none w w' :=
  h.counts

theorem Counts.same (h : Counts none w w') {c : Counter} (hc : c.concernsFencing = true) :
    w'.metrics.count c = w.metrics.count c :=
  h c hc

theorem Counts.after {counted : Option Counter} (h : Counts none w w')
    (h' : Counts counted w' w'') : Counts counted w w'' := by
  intro c hc
  rw [h' c hc, h.same hc]

theorem Counts.attempts {path : FencePath} (h : Counts (some (.fenceAttempts path)) w w') :
    w'.metrics.attempts = w.metrics.attempts + 1 := by
  unfold Metrics.attempts
  rw [h _ rfl, h _ rfl, h _ rfl, h _ rfl]
  cases path <;> simp <;> omega

theorem Counts.attempts_eq {counted : Option Counter} (h : Counts counted w w')
    (hcounted : ∀ path, counted ≠ some (.fenceAttempts path)) :
    w'.metrics.attempts = w.metrics.attempts := by
  unfold Metrics.attempts
  rw [h _ rfl, h _ rfl, h _ rfl, h _ rfl]
  simp [hcounted]

/-- The first mark of a handle is counted, and so is every failure. -/
theorem noteMarker_counts (w : Host) (h : Nat) (code : ReturnCode) :
    Counts
      (if code.isOk then if (w.handleAt h).persisted then none else some .fencePersisted
      else some (.fenceLogFailures .code)) w (w.noteMarker h code) := by
  unfold noteMarker
  split
  next =>
    unfold markPersisted
    split
    next => exact counts_of_metrics rfl
    next => exact counts_of_add rfl
  next => exact counts_of_add rfl

/-- A decision is counted on its path, and a failure to decide is not counted. -/
theorem decideFence_counts (w : Host) (h : Nat) :
    Counts ((w.decideFence h).1.toOption.map fun d => .fenceAttempts d.path) w
      (w.decideFence h).2 := by
  have hcalled := call_works (fun _ => false) (Store.fence_isAsk (w.handleAt h).ledger) w .fence
  have hcall := hcalled.counts_none
  unfold decideFence
  split
  next heq => rwa [heq] at hcall
  next heq =>
    rw [heq] at hcall
    exact hcall.after (counts_of_add rfl)
  next w₁ heq =>
    rw [heq] at hcall
    refine hcall.after ?_
    change Counts (some (.fenceAttempts (w₁.decideAgain h).1.path)) w₁ (w₁.decideAgain h).2
    unfold decideAgain
    split
    next => exact counts_of_add rfl
    next => split <;> exact counts_of_add rfl

/-! ### Steps -/

namespace Balanced

variable {b b' : FenceBooks} {h o : Nat}

/-- Markers may be written from one place of the books to another, or to the queues of
journals, as long as nothing is counted and none is lost. -/
theorem moves (hb : Balanced b w) (hmarks : KeepsMarks w w') (hcounts : Counts none w w')
    (hanswered : b'.answered = b.answered)
    (hmarkers : (b'.hand ++ b'.taken).Perm (b.hand ++ b.taken))
    (hcompleted : ∀ ok, completedWith ok b'.log = completedWith ok b.log)
    (hends : (b'.taken : Multiset (Nat × Nat)) = ↑(completedWith true b.log) +
      ↑(completedWith false b.log) + ↑(droppedIn b'.log) + ↑b'.running + w'.heldMarkers) :
    Balanced b' w' where
  attempts := by
    rw [hcounts.attempts_eq nofun, hanswered]
    exact hb.attempts
  submitted := by
    have hsubmitted := hb.submitted
    have hlength := hmarkers.length_eq
    rw [List.length_append, List.length_append] at hlength
    rw [hcounts.same rfl, hcounts.same rfl, hcounts.same rfl, hcounts.same rfl]
    omega
  failures := by
    rw [hcounts.same rfl, hcompleted]
    exact hb.failures
  ends := by
    rw [hcompleted, hcompleted]
    exact hends
  persisted := by
    rw [hcounts.same rfl, hmarks.markedHandles]
    exact hb.persisted
  marked := by
    rw [hmarks.markedHandles, hcompleted]
    exact hb.marked
  distinct := (hmarkers.map Prod.snd).nodup_iff.mpr hb.distinct
  known m hm := by
    obtain ⟨hheld, hnext⟩ := hb.known m (hmarkers.mem_iff.mp hm)
    exact ⟨hmarks.holds hheld, Nat.lt_of_lt_of_le hnext hmarks.outcomes⟩

theorem frame (hb : Balanced b w) (hmarks : KeepsMarks w w') (hcounts : Counts none w w')
    (hheld : w'.heldMarkers = w.heldMarkers) : Balanced b w' := by
  refine hb.moves hmarks hcounts rfl (.refl _) (fun _ => rfl) ?_
  rw [hheld]
  exact hb.ends

/-- Entries without a marker come and go unseen. -/
theorem requeued {id : Nat} {queue : List Held} (hb : Balanced b w)
    (hqueue : Requeues id queue w w') (hmetrics : w'.metrics = w.metrics)
    (hsame : queue.filterMap (·.callback.marker?) =
      (w.heldBy id).filterMap (·.callback.marker?)) : Balanced b w' :=
  hb.frame hqueue.keepsMarks (counts_of_metrics hmetrics) (hqueue.heldMarkers_same hsame)

/-- The order in which markers are written down is of no concern. -/
theorem permuted {hand running : List (Nat × Nat)} (hb : Balanced b w)
    (hhand : hand.Perm b.hand) (hrunning : running.Perm b.running) :
    Balanced { b with hand, running } w := by
  refine hb.moves (keepsMarks_of_eq rfl (Nat.le_refl _)) (counts_of_metrics rfl) rfl
    (hhand.append_right _) (fun _ => rfl) ?_
  rw [Multiset.coe_eq_coe.mpr hrunning]
  exact hb.ends

/-- Other events are written down without effect. -/
theorem logged {e : MarkerEvent} (hb : Balanced b w) (hcompleted : ∀ ok, e.completed? ok = none)
    (hdropped : e.dropped? = none) : Balanced { b with log := b.log ++ [e] } w := by
  refine hb.moves (keepsMarks_of_eq rfl (Nat.le_refl _)) (counts_of_metrics rfl) rfl (.refl _)
    ?_ ?_
  · intro ok
    simp [completedWith, hcompleted]
  · have hnone : droppedIn [e] = [] := by simp [droppedIn, hdropped]
    rw [droppedIn_append, hnone, List.append_nil]
    exact hb.ends

/-! ### Decisions and submissions -/

/-- A decision is counted on its path, and the marker of a call that appends is in
hand. -/
theorem decided {path : FencePath} {new : Option (Nat × Nat)} (hb : Balanced b w)
    (hmarks : KeepsMarks w w') (hjournals : w'.journals = w.journals)
    (hcounts : Counts (some (.fenceAttempts path)) w w') (hsome : new.isSome = appends path)
    (hnew : ∀ m ∈ new, w'.handles.holds m.1 = true ∧ w.outcomes.next ≤ m.2 ∧
      m.2 < w'.outcomes.next) :
    Balanced { b with answered := b.answered + 1, hand := new.toList ++ b.hand } w' where
  attempts := by rw [hcounts.attempts, hb.attempts]
  submitted := by
    have hsubmitted := hb.submitted
    have hlength : new.toList.length = if appends path = true then 1 else 0 := by
      rw [← hsome]
      cases new <;> rfl
    rw [hcounts _ rfl, hcounts _ rfl, hcounts _ rfl, hcounts _ rfl, List.length_append, hlength]
    cases path <;> simp [appends] <;> omega
  failures := by
    rw [hcounts _ rfl]
    simpa using hb.failures
  ends := by
    rw [heldMarkers_of_journals hjournals]
    exact hb.ends
  persisted := by
    rw [hcounts _ rfl, hmarks.markedHandles]
    simpa using hb.persisted
  marked := by
    rw [hmarks.markedHandles]
    exact hb.marked
  distinct := by
    cases new with
    | none => exact hb.distinct
    | some m =>
        change ((m :: (b.hand ++ b.taken)).map Prod.snd).Nodup
        rw [List.map_cons, List.nodup_cons]
        refine ⟨?_, hb.distinct⟩
        -- the outcome was put up by the decision
        intro hmem
        obtain ⟨m', hm', heq⟩ := List.mem_map.mp hmem
        have hold := (hb.known m' hm').2
        have hfresh := (hnew m rfl).2.1
        omega
  known m hm := by
    rw [List.append_assoc] at hm
    rcases List.mem_append.mp hm with hm | hold
    · obtain ⟨hheld, -, hnext⟩ := hnew m (Option.mem_toList.mp hm)
      exact ⟨hheld, hnext⟩
    · obtain ⟨hheld, hnext⟩ := hb.known m hold
      exact ⟨hmarks.holds hheld, Nat.lt_of_lt_of_le hnext hmarks.outcomes⟩

/-- A refusal is counted, and the marker is nowhere any more. -/
theorem refused (hb : Balanced { b with hand := (h, o) :: b.hand } w) (t : Thread)
    (cause : JournalError) : Balanced b (w.refuseMarker t o cause) := by
  -- the books do not tell apart for which of the two reasons it is counted
  have hcounts : ∃ reason : LogFailure, (reason = .interrupted ∨ reason = .journal) ∧
      Counts (some (.fenceLogFailures reason)) w (w.refuseMarker t o cause) := by
    cases cause with
    | interrupted => exact ⟨.interrupted, Or.inl rfl, counts_of_add rfl⟩
    | shutDown => exact ⟨.journal, Or.inr rfl, counts_of_add rfl⟩
  have hmarks : KeepsMarks w (w.refuseMarker t o cause) := by
    refine keepsMarks_of_eq ?_ ?_ <;> cases cause <;> first
      | rfl
      | exact Nat.le_of_eq (w.outcomes.next_modify o _).symm
  have hjournals : (w.refuseMarker t o cause).journals = w.journals := by
    cases cause <;> rfl
  obtain ⟨reason, hreason, hcounts⟩ := hcounts
  refine ⟨?_, ?_, ?_, ?_, ?_, ?_, ?_, ?_⟩
  · rw [hcounts.attempts_eq (by simp)]
    exact hb.attempts
  · have hsubmitted := hb.submitted
    simp only [List.length_cons] at hsubmitted
    rw [hcounts _ rfl, hcounts _ rfl, hcounts _ rfl, hcounts _ rfl]
    rcases hreason with rfl | rfl <;> simp <;> omega
  · rw [hcounts _ rfl]
    rcases hreason with rfl | rfl <;> simpa using hb.failures
  · rw [heldMarkers_of_journals hjournals]
    exact hb.ends
  · rw [hcounts _ rfl, hmarks.markedHandles]
    simpa using hb.persisted
  · rw [hmarks.markedHandles]
    exact hb.marked
  · exact (List.nodup_cons.mp hb.distinct).2
  · intro m hm
    obtain ⟨hheld, hnext⟩ := hb.known m (List.mem_cons_of_mem _ hm)
    exact ⟨hmarks.holds hheld, Nat.lt_of_lt_of_le hnext hmarks.outcomes⟩

/-- The marker in hand is taken, and its callback is held back or run. -/
theorem accepted {running : List (Nat × Nat)} {id : Nat} {queue : List Held}
    (hb : Balanced { b with hand := (h, o) :: b.hand } w) (hqueue : Requeues id queue w w')
    (hmetrics : w'.metrics = w.metrics)
    (hplace : (running : Multiset (Nat × Nat)) + ↑(queue.filterMap (·.callback.marker?)) =
      ↑b.running + ↑((w.heldBy id).filterMap (·.callback.marker?)) + {(h, o)}) :
    Balanced { b with taken := b.taken ++ [(h, o)], running } w' := by
  refine hb.moves hqueue.keepsMarks (counts_of_metrics hmetrics) rfl ?_ (fun _ => rfl) ?_
  · change (b.hand ++ (b.taken ++ [(h, o)])).Perm ((h, o) :: (b.hand ++ b.taken))
    rw [← List.append_assoc]
    exact List.perm_append_singleton _ _
  · refine add_right_cancel
      (b := ((w.heldBy id).filterMap (·.callback.marker?) : Multiset (Nat × Nat))) ?_
    calc ((b.taken ++ [(h, o)] : List (Nat × Nat)) : Multiset (Nat × Nat)) +
          ↑((w.heldBy id).filterMap (·.callback.marker?))
        = ↑(completedWith true b.log) + ↑(completedWith false b.log) + ↑(droppedIn b.log) +
            w.heldMarkers +
            (↑b.running + ↑((w.heldBy id).filterMap (·.callback.marker?)) + {(h, o)}) := by
          rw [← Multiset.coe_add, hb.ends, Multiset.coe_singleton]
          abel
      _ = ↑(completedWith true b.log) + ↑(completedWith false b.log) + ↑(droppedIn b.log) +
            ↑running + (w.heldMarkers + ↑(queue.filterMap (·.callback.marker?))) := by
          rw [← hplace]
          abel
      _ = _ := by
          rw [← hqueue.heldMarkers]
          abel

/-- What is taken off a queue is run or let go of. -/
theorem taken {id : Nat} {taken rest : List Held} (hb : Balanced b w)
    (hheld : w.heldBy id = taken ++ rest) (hqueue : Requeues id rest w w')
    (hmetrics : w'.metrics = w.metrics) :
    Balanced
      { b with running := taken.filterMap (·.callback.marker?) ++ b.running } w' := by
  refine hb.moves hqueue.keepsMarks (counts_of_metrics hmetrics) rfl (.refl _) (fun _ => rfl) ?_
  have hends := hb.ends
  rw [hqueue.heldMarkers_take hheld] at hends
  rw [hends, ← Multiset.coe_add]
  abel

/-! ### The ends of appends -/

/-- A callback that is let go of is booked as dropped, and as nothing else. -/
theorem abandon {callback : Callback}
    (hb : Balanced { b with running := callback.marker?.toList ++ b.running } w) :
    Balanced { b with log := b.log ++ callback.droppedEvents } (w.abandon callback) := by
  have hmarks : KeepsMarks w (w.abandon callback) := by
    cases callback with
    | fence h o => exact keepsMarks_of_eq rfl (Nat.le_of_eq (w.outcomes.next_modify o _).symm)
    | report label => exact keepsMarks_of_eq rfl (Nat.le_refl _)
  have hcounts : Counts none w (w.abandon callback) := by
    cases callback <;> exact counts_of_metrics rfl
  refine hb.moves hmarks hcounts rfl (.refl _) (by simp) ?_
  have hends := hb.ends
  rw [← Multiset.coe_add] at hends
  rw [heldMarkers_of_journals (abandon_journals w callback), droppedIn_append,
    droppedIn_droppedEvents, hends, ← Multiset.coe_add]
  abel

/-- The first step of the end of an append that a journal reports on. -/
theorem noted (hb : Balanced { b with running := (h, o) :: b.running } w) (code : ReturnCode) :
    Balanced { b with log := b.log ++ [.completed h o code] } (w.noteMarker h code) := by
  have hcounts := noteMarker_counts w h code
  -- the callback that runs moves over to those that ended
  have hends : (b.taken : Multiset (Nat × Nat)) = ↑(completedWith true b.log) +
      ↑(completedWith false b.log) + ↑(droppedIn b.log) + ({(h, o)} + ↑b.running) +
        w.heldMarkers := by
    rw [Multiset.singleton_add, Multiset.cons_coe]
    exact hb.ends
  have htaken : (h, o) ∈ b.taken := by
    rw [← Multiset.mem_coe, hends]
    simp
  have hknown := (hb.known _ (List.mem_append_right _ htaken)).1
  obtain ⟨houtcomes, hjournals⟩ := noteMarker_same w h code
  have hcompleted : ∀ ok, completedWith ok [.completed h o code] =
      if code.isOk = ok then [(h, o)] else [] :=
    fun ok => completedWith_completedEvents ok (.fence h o) code
  have hmarked := markedHandles_noteMarker hknown code
  have hholds : EndsHandles (.completed h o code) w (w.noteMarker h code) :=
    noteMarker_endsHandles hknown
  refine ⟨?_, ?_, ?_, ?_, ?_, ?_, hb.distinct, ?_⟩
  · rw [hcounts.attempts_eq]
    · exact hb.attempts
    · cases code.isOk <;> cases (w.handleAt h).persisted <;> simp
  · have hsubmitted := hb.submitted
    rw [hcounts _ rfl, hcounts _ rfl, hcounts _ rfl, hcounts _ rfl]
    cases code.isOk <;> cases (w.handleAt h).persisted <;> simpa using hsubmitted
  · rw [hcounts _ rfl, completedWith_append, hcompleted, List.length_append, hb.failures]
    cases code.isOk <;> cases (w.handleAt h).persisted <;> simp
  · have hdropped : droppedIn [.completed h o code] = [] := rfl
    rw [heldMarkers_of_journals hjournals, completedWith_append,
      completedWith_append, hcompleted, hcompleted, droppedIn_append, hdropped, List.append_nil,
      hends, ← Multiset.coe_add, ← Multiset.coe_add]
    cases code.isOk <;>
      simp only [Bool.false_eq_true, Bool.true_eq_false, if_true, if_false, Multiset.coe_nil,
        Multiset.coe_singleton] <;>
      abel
  · -- a handle that is marked already is not counted again
    rw [hcounts _ rfl, hmarked, hb.persisted]
    cases hok : code.isOk with
    | false => simp
    | true =>
        cases hbefore : (w.handleAt h).persisted with
        | true => simp [Finset.insert_eq_of_mem (mem_markedHandles.mpr hbefore)]
        | false =>
            have hnot : h ∉ w.markedHandles := by simp [mem_markedHandles, hbefore]
            simp [Finset.card_insert_of_notMem hnot]
  · rw [hmarked, hb.marked, completedWith_append, hcompleted]
    cases code.isOk with
    | false => simp
    | true =>
        ext i
        simp
  · intro m hm
    obtain ⟨hheld, hnext⟩ := hb.known m hm
    rw [houtcomes, hholds.holds]
    exact ⟨hheld, hnext⟩

theorem settle (hb : Balanced b w) (o : Nat) (r : FenceResult) : Balanced b (w.settle o r) :=
  hb.frame (keepsMarks_of_eq rfl (Nat.le_of_eq (w.outcomes.next_modify o _).symm))
    (counts_of_metrics rfl) rfl

/-- A callback that is run is booked with its code, and is being run no more. -/
theorem complete {callback : Callback} (report : Completion)
    (hb : Balanced { b with running := callback.marker?.toList ++ b.running } w) :
    Balanced { b with log := b.log ++ callback.completedEvents report.code }
      (w.complete callback report) := by
  cases callback with
  | fence h o => exact (hb.noted report.code).settle o (.ok report.code.isOk)
  | report label =>
      change Balanced { b with log := b.log ++ [] } (w.emit (.completed label report))
      rw [List.append_nil]
      exact hb.frame (keepsMarks_of_eq rfl (Nat.le_refl _)) (counts_of_metrics rfl) rfl

end Balanced

end Host

end FencedLedger
