import FencedLedger.Proofs.OutcomeInvariant
import FencedLedger.Proofs.QueueRuns

/-!
# Outcomes along a run

Every operation on journals that keep a state adds its events to the history and
keeps the invariant of outcomes. Paths that refuse what they reported, or fence on
the way, are left out: they end an append twice.
-/

namespace FencedLedger

namespace Host

variable {w w' : Host} {log : List MarkerEvent} {hand : List (Nat × Nat)}

/-! ### Fence calls -/

/-- Submitting a marker in hand has one of three events, and each keeps the invariant. -/
theorem Faithful.submitMarker {h o : Nat} (hf : Faithful log ((h, o) :: hand) w) (id : Nat)
    (t : Thread) : Faithful (log ++ w.submissionEvents id t h o) hand
      (w.submitMarker (submitTo id) t h o) := by
  have hsubmits := submitTo_submits id w t (Entry.fenceMarker (w.handleAt h).ledger)
    (w.handleAt h).ackBeforeSync (.fence h o)
  unfold submissionEvents Host.submitMarker
  dsimp only
  generalize w.verdict id t (Entry.fenceMarker (w.handleAt h).ledger)
    (w.handleAt h).ackBeforeSync (.fence h o) = v at hsubmits ⊢
  generalize submitTo id w t (Entry.fenceMarker (w.handleAt h).ledger)
    (w.handleAt h).ackBeforeSync (.fence h o) = r at hsubmits ⊢
  cases hsubmits with
  | refused cause w₁ hqueue => exact (hf.requeued hqueue rfl).refused t cause
  | completed report w₁ hqueue =>
      have hrun : Faithful log ((Callback.fence h o).marker?.toList ++ hand) w₁ :=
        hf.requeued hqueue rfl
      exact hrun.complete report
  | held w₁ hqueue =>
      rw [List.append_nil]
      exact hf.hold hqueue

/-- A fence call opens a marker and submits it, or finds an outcome. -/
theorem Faithful.fence {h : Nat} (hf : Faithful log [] w) (id : Nat) (t : Thread)
    (hknown : w.handles.holds h = true) :
    Faithful (log ++ w.fenceEvents id t h) [] (w.fenceWith (submitTo id) t h).2 := by
  have hdecides := decideFence_decides w h
  unfold fenceEvents fenceWith
  generalize w.decideFence h = r at hdecides ⊢
  cases hdecides with
  | failed e w₁ idle =>
      rw [List.append_nil]
      exact hf.of_eq idle.handles idle.outcomes idle.journals
  | first w₁ sets clear puts =>
      -- the marker is in hand between the decision and the submission
      rw [List.append_cons]
      exact (hf.opened puts sets.journals hknown).submitMarker id t
  | retry w₁ sets fenced unmarked idle puts =>
      rw [List.append_cons]
      exact (hf.opened puts sets.journals hknown).submitMarker id t
  | inFlight o w₁ sets fenced unmarked underWay handles outcomes =>
      exact hf.joined underWay handles outcomes sets.journals hknown
  | alreadyPersisted w₁ sets fenced marked handles outcomes =>
      exact hf.found handles outcomes sets.journals hknown

/-- Other entries come with no event. -/
theorem Faithful.submitReport (hf : Faithful log hand w) (id : Nat) (t : Thread) (entry : Bytes)
    (ack : Bool) (label : String) :
    Faithful log hand (submitTo id w t entry ack (.report label)).2 := by
  have hsubmits := submitTo_submits id w t entry ack (.report label)
  generalize w.verdict id t entry ack (.report label) = v at hsubmits
  generalize submitTo id w t entry ack (.report label) = r at hsubmits ⊢
  cases hsubmits with
  | refused cause w₁ hqueue => exact hf.requeued hqueue rfl
  | completed report w₁ hqueue => exact (hf.requeued hqueue rfl).of_eq rfl rfl rfl
  | held w₁ hqueue => exact hf.requeued hqueue (by simp [Callback.marker?])

/-! ### Completions -/

/-- Callbacks that are taken off a queue, run or let go of agree with their events. -/
theorem faithful_keptByEnds : KeptByEnds Faithful where
  take hf hheld hqueue _ := hf.take hheld hqueue
  complete report hf := hf.complete report
  abandon hf := hf.abandon

/-! ### Operations and runs -/

end Host

/-- Whether the operation submits to no journal but those that keep a state. -/
def Op.toJournals : Op → Bool
  | .fence _ path _ | .log path .. =>
      match path with
      | .journal _ => true
      | _ => false
  | _ => true

namespace Host

variable {w : Host} {log : List MarkerEvent}

/-- A fence call has events if its handle is there and writable, and keeps the invariant. -/
theorem perform_fence_faithful (hf : Faithful log [] w) (handle : HandleRef) (id : Nat)
    (t : Thread) : Faithful (log ++ w.markerEvents (.fence handle (.journal id) t)) []
      (w.perform (.fence handle (.journal id) t)).2 := by
  change Faithful _ [] (w.whenHeld _ _).2
  unfold whenHeld
  cases handle with
  | reader r =>
      change Faithful (log ++ []) [] _
      rw [List.append_nil]
      split <;> exact hf
  | writable h =>
      change Faithful (log ++ if w.knowsHandle (.writable h) && w.knowsPath (.journal id) then
        w.fenceEvents id t h else []) [] _
      by_cases hheld : (w.knowsHandle (.writable h) && w.knowsPath (.journal id)) = true
      · rw [if_pos hheld, if_pos hheld, answer_host]
        exact hf.fence id t (Bool.and_eq_true_iff.mp hheld).1
      · rw [if_neg hheld, if_neg hheld, List.append_nil]
        exact hf

/-- An operation has the events of the fencing that it does, and keeps the invariant. -/
theorem perform_faithful (hf : Faithful log [] w) {op : Op} (hop : op.toJournals = true) :
    Faithful (log ++ w.markerEvents op) [] (w.perform op).2 := by
  -- where nothing is fenced, nothing is added to the history
  have hquiet : Faithful (log ++ []) [] w := by
    rw [List.append_nil]
    exact hf
  cases op with
  | fence handle path t =>
      cases path with
      | journal id => exact perform_fence_faithful hf handle id t
      | _ => cases hop
  | completeNext | completeAll | dropNext | releaseJournal =>
      exact faithful_keptByEnds.perform hf rfl
  | log path t entry ack label =>
      cases path with
      | journal id =>
          refine whenHeld_host (P := Faithful (log ++ []) []) hquiet ?_
          rw [answer_host]
          exact hquiet.submitReport id t entry ack label
      | _ => cases hop
  | createMemoryJournal | createScriptedJournal | shutDown | setMode | queueFailure =>
      exact hquiet.requeued (setUp_requeues w rfl 0) rfl
  | createOutcome result => exact hquiet.settledAdded rfl rfl rfl
  | _ => exact hquiet.calm (perform_calm w rfl)

theorem run_faithful (hf : Faithful log [] w) (ops : List Op)
    (hops : ∀ op ∈ ops, op.toJournals = true) :
    Faithful (log ++ w.history ops) [] (w.run ops) := by
  induction ops generalizing w log with
  | nil =>
      unfold history
      rw [List.append_nil]
      exact hf
  | cons op ops ih =>
      unfold history
      rw [← List.append_assoc]
      exact ih (perform_faithful hf (hops op List.mem_cons_self))
        fun op' hmem => hops op' (List.mem_cons_of_mem _ hmem)

end Host

end FencedLedger
