import FencedLedger.Proofs.Effects

/-!
# Runs on which time passes

The operations of a host move its clock only when a deletion is remembered. What
a cache remembers expires, so whoever asks for it also has to say how much time
went by. A timeline is a run with any amount of time between its operations.
-/

namespace FencedLedger

/-- What a host goes through. -/
inductive Moment where
  | act (op : Op)
  | pass (nanos : Nat)

namespace Host

variable {w : Host}

/-- The host behind a moment. -/
def undergo (w : Host) : Moment → Host
  | .act op => (w.perform op).2
  | .pass nanos => { w with now := w.now + nanos }

/-- The host behind a timeline. -/
def live (w : Host) (moments : List Moment) : Host := moments.foldl undergo w

theorem pass_idle (w : Host) (nanos : Nat) : Idle w (w.undergo (.pass nanos)) :=
  ⟨⟨⟨Nat.le_add_right _ _, id⟩, rfl⟩, rfl, rfl, rfl, rfl, rfl, rfl, rfl⟩

theorem undergo_onward (w : Host) (moment : Moment) : Onward w (w.undergo moment) := by
  cases moment with
  | act op => exact (perform_effect w op).onward
  | pass nanos => exact (pass_idle w nanos).background.toOnward

theorem live_onward (w : Host) (moments : List Moment) : Onward w (w.live moments) := by
  induction moments generalizing w with
  | nil => exact .refl w
  | cons moment moments ih => exact (undergo_onward w moment).trans (ih _)

/-- A run is a timeline on which no time passes in between. -/
theorem live_act (w : Host) (ops : List Op) : w.live (ops.map .act) = w.run ops := by
  unfold live run
  rw [List.foldl_map]
  rfl

end Host

end FencedLedger
