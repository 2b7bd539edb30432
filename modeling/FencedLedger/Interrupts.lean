/-!
# Interrupts

Each thread has a flag that others raise to interrupt it. Submitting to a
journal takes the flag down, and so does asking for it.
-/

namespace FencedLedger

/-- A thread of execution. -/
inductive Thread where
  /-- A thread that lives as long as the host. -/
  | named (name : String)
  /-- A thread that makes one call and ends. -/
  | worker (serial : Nat)
  deriving DecidableEq, Repr

/-- The threads whose flag is raised. -/
structure Interrupts where
  /-- The threads whose flag is raised, each once. -/
  raised : List Thread
  deriving DecidableEq

namespace Interrupts

/-- No flag is raised. -/
def empty : Interrupts := ⟨[]⟩

/-- Whether the flag of a thread is raised. -/
def isRaised (i : Interrupts) (t : Thread) : Bool := i.raised.contains t

/-- Raise the flag of a thread. -/
def raise (i : Interrupts) (t : Thread) : Interrupts :=
  if i.isRaised t then i else ⟨t :: i.raised⟩

/-- Take down the flag of a thread. -/
def clear (i : Interrupts) (t : Thread) : Interrupts := ⟨i.raised.filter fun u => u ≠ t⟩

/-- Raising one thread's flag leaves the flags of the others. -/
theorem isRaised_raise (i : Interrupts) (t u : Thread) :
    (i.raise t).isRaised u = true ↔ i.isRaised u = true ∨ u = t := by
  unfold raise
  split
  next hraised =>
    refine ⟨Or.inl, ?_⟩
    rintro (h | rfl)
    · exact h
    · exact hraised
  next =>
    unfold isRaised
    rw [List.contains_cons, Bool.or_eq_true, beq_iff_eq]
    exact or_comm

theorem isRaised_clear (i : Interrupts) (t u : Thread) :
    (i.clear t).isRaised u = true ↔ i.isRaised u = true ∧ u ≠ t := by
  simp [isRaised, clear]

end Interrupts

end FencedLedger
