import FencedLedger.Proofs.MarkerHistory

/-!
# Queues, one callback at a time

A journal runs its callbacks or lets go of them one after the other, in order of
submission, also when it is told to end a whole queue or is let go itself. So what
single callbacks keep, with the event that each of them has, is kept by every such
operation with its events.
-/

namespace FencedLedger

/-- Whether an operation ends the appends of callbacks that a journal holds. -/
def Op.endsAppends : Op → Bool
  | .completeNext .. | .completeAll .. | .dropNext _ | .releaseJournal _ => true
  | _ => false

theorem completion_code (entry : Bytes) (code : ReturnCode) :
    (Completion.of entry code).code = code := by
  unfold Completion.of
  split <;> rfl

namespace Host

theorem takeHeld_metrics (w : Host) (id : Nat) : (w.takeHeld id).2.metrics = w.metrics := by
  unfold takeHeld
  split <;> rfl

/-- A property of a history, the markers in hand and the host that callbacks keep when
they are taken off a queue into the hand, run, and let go of. -/
structure KeptByEnds (P : List MarkerEvent → List (Nat × Nat) → Host → Prop) : Prop where
  take : ∀ {log hand w w' id taken rest}, P log hand w → w.heldBy id = taken ++ rest →
    Requeues id rest w w' → w'.metrics = w.metrics →
    P log (taken.filterMap (·.callback.marker?) ++ hand) w'
  complete : ∀ {log hand w callback} (report : Completion),
    P log (callback.marker?.toList ++ hand) w →
    P (log ++ callback.completedEvents report.code) hand (w.complete callback report)
  abandon : ∀ {log hand w callback}, P log (callback.marker?.toList ++ hand) w →
    P (log ++ callback.droppedEvents) hand (w.abandon callback)

namespace KeptByEnds

variable {P : List MarkerEvent → List (Nat × Nat) → Host → Prop} {w : Host}
  {log : List MarkerEvent} {hand : List (Nat × Nat)}

/-- The callback held longest is taken off, into the hand. -/
theorem takeHeld (hP : KeptByEnds P) (h : P log hand w) (id : Nat) :
    w.heldBy id = [] ∧ w.takeHeld id = (none, w) ∨
      ∃ first rest w', w.heldBy id = first :: rest ∧ w.takeHeld id = (some first, w') ∧
        w'.heldBy id = rest ∧ P log (first.callback.marker?.toList ++ hand) w' := by
  rcases takeHeld_cases w id with hempty | ⟨first, rest, w₁, hheld, htaken, hqueue⟩
  · exact Or.inl hempty
  · have hone : w.heldBy id = [first] ++ rest := hheld
    have hmetrics := takeHeld_metrics w id
    rw [htaken] at hmetrics
    have htake := hP.take h hone hqueue hmetrics
    rw [filterMap_singleton] at htake
    exact Or.inr ⟨first, rest, w₁, hheld, htaken, hqueue.queue, htake⟩

/-- One callback is taken off the queue and run, if the journal holds any. -/
theorem completeNext (hP : KeptByEnds P) (h : P log hand w) (id : Nat) (code : ReturnCode) :
    w.heldBy id = [] ∧ w.completeNext id code = (false, w) ∨
      ∃ first w', w.completeNext id code = (true, w') ∧ w.heldBy id = first :: w'.heldBy id ∧
        P (log ++ first.callback.completedEvents code) hand w' := by
  unfold Host.completeNext
  rcases hP.takeHeld h id with ⟨hempty, htaken⟩ | ⟨first, rest, w₁, hheld, htaken, hrest, htake⟩
  · rw [htaken]
    exact Or.inl ⟨hempty, rfl⟩
  · rw [htaken]
    refine Or.inr ⟨first, _, rfl, ?_, ?_⟩
    · rw [heldBy_complete, hrest, hheld]
    · have hrun := hP.complete (.of first.entry code) htake
      rwa [completion_code] at hrun

/-- One callback is run, or there was none. -/
theorem completeFirst (hP : KeptByEnds P) (h : P log hand w) (id : Nat) (code : ReturnCode) :
    P (log ++ ((w.heldBy id).take 1).flatMap (·.callback.completedEvents code)) hand
      (w.completeNext id code).2 := by
  rcases hP.completeNext h id code with ⟨hempty, hnone⟩ | ⟨first, w₁, hsome, hheld, hnext⟩
  · rw [hnone, hempty, List.take_nil, List.flatMap_nil, List.append_nil]
    exact h
  · rw [hsome, hheld, List.take_succ_cons, List.take_zero, List.flatMap_singleton]
    exact hnext

/-- Many callbacks are run one after the other, in the order of the queue. -/
theorem completeUpTo (hP : KeptByEnds P) (h : P log hand w) (id : Nat) (code : ReturnCode)
    (bound : Nat) :
    P (log ++ ((w.heldBy id).take bound).flatMap (·.callback.completedEvents code)) hand
      (w.completeUpTo id code bound).2 := by
  induction bound generalizing w log with
  | zero =>
      rw [List.take_zero, List.flatMap_nil, List.append_nil]
      exact h
  | succ bound ih =>
      unfold Host.completeUpTo
      rcases hP.completeNext h id code with ⟨hempty, hnone⟩ | ⟨first, w₁, hsome, hheld, hnext⟩
      · rw [hnone, hempty, List.take_nil, List.flatMap_nil, List.append_nil]
        exact h
      · -- one callback less is held, and its event is in the history
        rw [hsome, hheld, List.take_succ_cons, List.flatMap_cons, ← List.append_assoc]
        exact ih hnext

theorem completeAll (hP : KeptByEnds P) (h : P log hand w) (id : Nat) (code : ReturnCode) :
    P (log ++ (w.heldBy id).flatMap (·.callback.completedEvents code)) hand
      (w.completeAll id code).2 := by
  have hall := hP.completeUpTo h id code (w.heldBy id).length
  rwa [List.take_length] at hall

/-- One callback is let go of, or there was none. -/
theorem dropNext (hP : KeptByEnds P) (h : P log hand w) (id : Nat) :
    P (log ++ ((w.heldBy id).take 1).flatMap (·.callback.droppedEvents)) hand
      (w.dropNext id).2 := by
  unfold Host.dropNext
  rcases hP.takeHeld h id with ⟨hempty, htaken⟩ | ⟨first, rest, w₁, hheld, htaken, -, htake⟩
  · rw [htaken, hempty, List.take_nil, List.flatMap_nil, List.append_nil]
    exact h
  · rw [htaken, hheld, List.take_succ_cons, List.take_zero, List.flatMap_singleton]
    exact hP.abandon htake

/-- Callbacks in hand are let go of one after the other. -/
theorem abandonAll (hP : KeptByEnds P) (held : List Held)
    (h : P log (held.filterMap (·.callback.marker?) ++ hand) w) :
    P (log ++ held.flatMap (·.callback.droppedEvents)) hand
      (held.foldl (fun w x => w.abandon x.callback) w) := by
  induction held generalizing w log with
  | nil =>
      rw [List.flatMap_nil, List.append_nil]
      exact h
  | cons x held ih =>
      have hfirst : P log
          (x.callback.marker?.toList ++ (held.filterMap (·.callback.marker?) ++ hand)) w := by
        rw [← filterMap_singleton (·.callback.marker?) x, ← List.append_assoc,
          ← List.filterMap_append]
        exact h
      rw [List.flatMap_cons, ← List.append_assoc]
      exact ih (hP.abandon hfirst)

theorem releaseJournal (hP : KeptByEnds P) (h : P log hand w) (id : Nat) :
    P (log ++ (w.heldBy id).flatMap (·.callback.droppedEvents)) hand (w.releaseJournal id) :=
  hP.abandonAll (w.heldBy id)
    (hP.take h (List.append_nil _).symm (release_requeues w id) rfl)

/-- Every operation that ends appends keeps the property along with its events. -/
theorem perform (hP : KeptByEnds P) (h : P log hand w) {op : Op} (hop : op.endsAppends = true) :
    P (log ++ w.markerEvents op) hand (w.perform op).2 := by
  cases op with
  | completeNext id code => exact hP.completeFirst h id code
  | completeAll id code => exact hP.completeAll h id code
  | dropNext id => exact hP.dropNext h id
  | releaseJournal id =>
      change P _ hand (w.whenHeld _ _).2
      unfold whenHeld
      split
      next => exact hP.releaseJournal h id
      next hgone =>
        -- a journal that is gone holds nothing
        have hnothing : w.heldBy id = [] := by
          rw [heldBy_eq, Option.not_isSome_iff_eq_none.mp hgone]
          rfl
        change P (log ++ (w.heldBy id).flatMap _) hand w
        rw [hnothing, List.flatMap_nil, List.append_nil]
        exact h
  | _ => cases hop

end KeptByEnds

end Host

end FencedLedger
