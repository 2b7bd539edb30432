import FencedLedger.Proofs.FenceAccounts
import FencedLedger.Proofs.InterruptFlags

/-!
# Interrupts reach their threads

Threads fence and are interrupted while others act on the same handles and journals, step by
step and with many stores. Whatever they do, an interrupt waits for its thread: it is there
until the thread asks for it or submits to a journal itself. A fence call is neither, and as
long as the interrupt waits, the fence calls of the thread get nothing into a journal.
-/

namespace FencedLedger

namespace Move

/-- Whether the flag of a thread may be taken down. -/
def lowersFlag (t : Thread) : Move → Bool
  | operate _ op => op.lowersFlag t
  | _ => false

/-- Whether a fence call of a thread is made, or goes on with its second step. -/
def fencesOn (t : Thread) : Move → Bool
  | operate _ op => op.fencesOn t
  | submit _ _ u => u = t
  | _ => false

end Move

namespace Process

variable {p : Process} {t : Thread}

theorem submit_host (p : Process) (hand : List (Nat × Nat)) (m : Nat × Nat) (id : Nat)
    (t : Thread) : (p.submit hand m id t).host = p.host.passMarker id t m.1 m.2 := by
  unfold submit Host.passMarker
  rcases p.host.handMarker id t m.1 m.2 with ⟨verdict, w⟩
  cases verdict <;> rfl

/-- A decision looks at no flag. -/
theorem decide_interrupts (p : Process) (k h : Nat) :
    (p.step (.decide k h)).host.interrupts = p.host.interrupts := by
  have hdecided := Host.decideFence_sameFlags (p.mount k) h
  unfold step
  dsimp only
  split
  next =>
    split
    next heq =>
      rw [heq] at hdecided
      exact hdecided
    next heq =>
      rw [heq] at hdecided
      exact hdecided
  next => rfl

/-- The flag comes up for a marker that was in hand and is refused as interrupted. -/
theorem submit_flags (p : Process) (m : Nat × Nat) (id : Nat) (t u : Thread) :
    (p.step (.submit m id t)).host.interrupts.isRaised u = true ↔
      p.host.interrupts.isRaised u = true ∨
        u = t ∧ m ∈ p.books.hand ∧
          (p.host.handMarker id t m.1 m.2).1 = .refused .interrupted := by
  unfold step
  dsimp only
  split
  next hmem =>
    rw [submit_host, Host.passMarker_flags]
    simp [hmem]
  next hmem => simp [hmem]

/-- Only an operation on the thread itself takes its flag down, and no step of a fence call
does. -/
theorem step_raised (hraised : p.host.interrupts.isRaised t = true) {move : Move}
    (hmove : move.lowersFlag t = false) :
    (p.step move).host.interrupts.isRaised t = true := by
  have hsame : ∀ {w : Host}, w.interrupts = p.host.interrupts → w.interrupts.isRaised t = true :=
    fun h => (congrArg (Interrupts.isRaised · t) h).trans hraised
  cases move with
  | operate k op => exact Host.perform_raised (w := p.mount k) hraised hmove
  | decide k h => exact hsame (p.decide_interrupts k h)
  | submit m id u => exact (p.submit_flags m id u t).mpr (Or.inl hraised)
  | takeUp id =>
      have htaken := Host.sameFlags_holdsOfTakings.takeHeld p.host id
      unfold step
      dsimp only
      split
      next heq =>
        rw [heq] at htaken
        exact hsame htaken
      next => exact hraised
  | note m code =>
      unfold step
      dsimp only
      split
      next => exact hsame (Host.sameFlags_ignoresBooks.noteMarker p.host m.1 code)
      next => exact hraised
  | settle o r => exact hraised

/-- A thread whose flag is up gets nothing into a journal by a step of its fence calls. -/
theorem step_takenBy (hraised : p.host.interrupts.isRaised t = true) {move : Move}
    (hmove : move.fencesOn t = true) (id : Nat) :
    (p.step move).host.takenBy id = p.host.takenBy id := by
  cases move with
  | operate k op => exact Host.fence_takenBy (w := p.mount k) hraised hmove id
  | submit m k u =>
      have hu : u = t := of_decide_eq_true hmove
      subst hu
      unfold step
      dsimp only
      split
      next =>
        rw [submit_host]
        exact Host.passMarker_takenBy hraised k m.1 m.2 id
      next => rfl
  | _ => cases hmove

/-- Without an operation on the thread that lowers it, the flag stays up over a run. -/
theorem run_raised (hraised : p.host.interrupts.isRaised t = true) {moves : List Move}
    (hmoves : ∀ move ∈ moves, move.lowersFlag t = false) :
    (p.run moves).host.interrupts.isRaised t = true := by
  induction moves generalizing p with
  | nil => exact hraised
  | cons move moves ih =>
      exact ih (step_raised hraised (hmoves move List.mem_cons_self))
        fun move' hmem => hmoves move' (List.mem_cons_of_mem _ hmem)

/-- A fence call leaves every flag as it was, except that its own thread finds its flag
raised when the journal refused the marker as interrupted. So it is of whole calls and of
each of their steps, on every host and whichever journal takes the marker. Hence in every
run of a process, with steps of many calls in turns, an interrupt that waits for a thread
goes on waiting until the thread asks for it or submits to a journal itself, and meanwhile
no fence call of the thread, and no step of one, gets an entry into a journal. -/
theorem interrupts_survive_fencing :
    (∀ (w : Host) (handle : HandleRef) (id : Nat) (t u : Thread),
      (w.perform (.fence handle (.journal id) t)).2.interrupts.isRaised u = true ↔
        w.interrupts.isRaised u = true ∨
          u = t ∧ ∃ h o,
            .refused h o .interrupted ∈ w.markerEvents (.fence handle (.journal id) t)) ∧
      (∀ (p : Process) (k h : Nat),
        (p.step (.decide k h)).host.interrupts = p.host.interrupts) ∧
      (∀ (p : Process) (m : Nat × Nat) (id : Nat) (t u : Thread),
        (p.step (.submit m id t)).host.interrupts.isRaised u = true ↔
          p.host.interrupts.isRaised u = true ∨
            u = t ∧ m ∈ p.books.hand ∧
              (p.host.handMarker id t m.1 m.2).1 = .refused .interrupted) ∧
      ∀ (p : Process) (t : Thread) (moves : List Move),
        p.host.interrupts.isRaised t = true → (∀ move ∈ moves, move.lowersFlag t = false) →
          (p.run moves).host.interrupts.isRaised t = true ∧
            ∀ before move after, moves = before ++ move :: after → move.fencesOn t = true →
              ∀ id,
                ((p.run before).step move).host.takenBy id = (p.run before).host.takenBy id := by
  refine ⟨Host.fence_flags, decide_interrupts, submit_flags, fun p t moves hraised hmoves => ?_⟩
  refine ⟨run_raised hraised hmoves, ?_⟩
  rintro before move after rfl hfences id
  have hstill := run_raised hraised fun move' hmem =>
    hmoves move' (List.mem_append_left _ hmem)
  exact step_takenBy hstill hfences id

/-- A thread is interrupted and makes a fence call, on a journal that holds callbacks back,
while another joins it; then the first submits an entry of its own. -/
def interrupted : List Move :=
  [.operate 0 (.createScriptedJournal .hold), .operate 0 (.createHandle ⟨1⟩ [0x6b] false),
    .operate 0 (.raise (.worker 0)), .decide 0 0, .submit (0, 0) 0 (.worker 0),
    .operate 0 (.fence (.writable 0) (.journal 0) (.worker 0)),
    .operate 0 (.fence (.writable 0) (.journal 0) (.worker 1)),
    .operate 0 (.fence (.writable 0) (.journal 0) (.worker 0)),
    .operate 0 (.log (.journal 0) (.worker 0) [] false "own")]

/-- The interrupt is there before the thread submits an entry of its own, and gone then. Only
the marker of the other thread was taken. -/
theorem interrupted_until_own_entry :
    (((start fun _ => none).run (interrupted.take 3)).host.interrupts.isRaised (.worker 0) = true ∧
        ∀ move ∈ (interrupted.drop 3).take 5, move.lowersFlag (.worker 0) = false) ∧
      ((start fun _ => none).run (interrupted.take 8)).host.interrupts.isRaised
        (.worker 0) = true ∧
      ((start fun _ => none).run interrupted).host.interrupts.isRaised (.worker 0) = false ∧
      (((start fun _ => none).run interrupted).host.takenBy 0).length = 1 := by
  have hraised :
      ((start fun _ => none).run (interrupted.take 3)).host.interrupts.isRaised
        (.worker 0) = true := by decide
  have hmoves : ∀ move ∈ (interrupted.drop 3).take 5, move.lowersFlag (.worker 0) = false := by
    decide
  refine ⟨⟨hraised, hmoves⟩, ?_, by decide, by decide⟩
  exact (interrupts_survive_fencing.2.2.2 _ _ _ hraised hmoves).1

end Process

end FencedLedger
