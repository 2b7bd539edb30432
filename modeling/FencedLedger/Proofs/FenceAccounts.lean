import FencedLedger.Proofs.BookedOperations
import Mathlib.Logic.Function.Basic

/-!
# Fence calls are accounted for

A process may hold many stores, and handles, caches and journals are used with all of
them; its counters are common to all. Books are kept over every run of such a process,
whether calls run as a whole or take turns step by step, and at every moment the counters
agree with them. Any handle may be used on any store here, so each may be used on its
own. The outcome of an append may be settled at any time and with any result, since the
books do not look at outcomes.
-/

namespace FencedLedger

/-- A store that a process holds, with the faults planned for it. -/
structure Site where
  store : Store
  faults : Option FaultPlan

/-- A process that holds many stores. The host is everything else, with the store that
was used last in place. -/
structure Process where
  host : Host
  sites : Nat → Site
  books : FenceBooks

/-- What may happen in a process. -/
inductive Move where
  /-- An operation with a store in place, as a whole. -/
  | operate (site : Nat) (op : Op)
  /-- The first step of a fence call. -/
  | decide (site handle : Nat)
  /-- The second step: a marker in hand goes to a journal. -/
  | submit (marker : Nat × Nat) (journal : Nat) (thread : Thread)
  /-- A journal takes the callback that it held longest, to run it. -/
  | takeUp (journal : Nat)
  /-- The first step of a callback that is run. -/
  | note (marker : Nat × Nat) (code : ReturnCode)
  /-- Another step of a callback. -/
  | settle (outcome : Nat) (result : FenceResult)

namespace Move

/-- Whether only journals that keep a state are used. -/
def toJournals : Move → Bool
  | operate _ op => op.toJournals
  | _ => true

/-- Whether a whole operation happens. -/
def isOperation : Move → Bool
  | operate .. => true
  | _ => false

end Move

namespace Process

open Host (Balanced)

/-- A process before anything happened, with the faults planned for its stores. -/
def start (faults : Nat → Option FaultPlan) : Process where
  host := .start none
  sites k := ⟨.empty, faults k⟩
  books := ⟨0, [], [], [], []⟩

/-- The host with the store of a site in place. -/
def mount (p : Process) (k : Nat) : Host :=
  { p.host with store := (p.sites k).store, faults := (p.sites k).faults }

/-- The process after something happened with the store of a site in place. -/
def after (p : Process) (k : Nat) (w : Host) (books : FenceBooks) : Process where
  host := w
  sites := Function.update p.sites k ⟨w.store, w.faults⟩
  books := books

/-- Hand a marker over. What was in hand else is `hand`. -/
def submit (p : Process) (hand : List (Nat × Nat)) (m : Nat × Nat) (id : Nat) (t : Thread) :
    Process :=
  match p.host.handMarker id t m.1 m.2 with
  | (.refused cause, w) =>
      { p with host := w.refuseMarker t m.2 cause, books := { p.books with hand } }
  | (.completed _, w) =>
      { p with
        host := w
        books := { p.books with
          hand
          taken := p.books.taken ++ [m]
          running := m :: p.books.running } }
  | (.held, w) =>
      { p with host := w, books := { p.books with hand, taken := p.books.taken ++ [m] } }

/-- The process after a move. A move that names what is not there changes nothing. -/
def step (p : Process) : Move → Process
  | .operate k op => p.after k ((p.mount k).perform op).2 (p.books.operated (p.mount k) op)
  | .decide k h =>
      if p.host.handles.holds h then
        match (p.mount k).decideFence h with
        | (.error _, w) => p.after k w p.books
        | (.ok d, w) =>
            p.after k w { p.books with
              answered := p.books.answered + 1
              hand := (d.marker? h).toList ++ p.books.hand }
      else p
  | .submit m id t => if m ∈ p.books.hand then p.submit (p.books.hand.erase m) m id t else p
  | .takeUp id =>
      match p.host.takeHeld id with
      | (some ⟨_, .fence h o⟩, w) =>
          { p with host := w, books := { p.books with running := (h, o) :: p.books.running } }
      | _ => p
  | .note m code =>
      if m ∈ p.books.running then
        { p with
          host := p.host.noteMarker m.1 code
          books := { p.books with
            running := p.books.running.erase m
            log := p.books.log ++ [.completed m.1 m.2 code] } }
      else p
  | .settle o r => { p with host := p.host.settle o r }

/-- The process behind a run. -/
def run (p : Process) (moves : List Move) : Process := moves.foldl step p

variable {p : Process}

theorem mount_balanced (hf : Balanced p.books p.host) (k : Nat) :
    Balanced p.books (p.mount k) :=
  hf.frame (Host.keepsMarks_of_eq rfl (Nat.le_refl _)) (Host.counts_of_metrics rfl)
    (Host.heldMarkers_of_journals rfl)

/-- A decision is booked by the process that makes it. -/
theorem decide_balanced (hf : Balanced p.books p.host) (k h : Nat) :
    Balanced (p.step (.decide k h)).books (p.step (.decide k h)).host := by
  have hmounted := mount_balanced hf k
  unfold step
  dsimp only
  split
  next hknown =>
    split
    next e w hdecide => exact hmounted.undecided hdecide
    next d w hdecide => exact hmounted.decide hknown hdecide
  next => exact hf

/-- A marker that is submitted was in hand, and is booked as what became of it. -/
theorem submit_balanced (hf : Balanced p.books p.host) (m : Nat × Nat) (id : Nat) (t : Thread) :
    Balanced (p.step (.submit m id t)).books (p.step (.submit m id t)).host := by
  unfold step
  dsimp only
  split
  next hmem =>
    have hfirst := hf.permuted (List.perm_cons_erase hmem).symm (.refl _)
    have hhands := Balanced.handMarker (b := { p.books with hand := p.books.hand.erase m })
      hfirst id t
    unfold submit
    generalize p.host.handMarker id t m.1 m.2 = r at hhands ⊢
    cases hhands with
    | refused cause w hb => exact hb
    | completed report w hb => exact hb
    | held w hb => exact hb
  next => exact hf

/-- A callback that a journal takes up is booked as being run. -/
theorem takeUp_balanced (hf : Balanced p.books p.host) (id : Nat) :
    Balanced (p.step (.takeUp id)).books (p.step (.takeUp id)).host := by
  unfold step
  dsimp only
  split
  next entry h o w htaken =>
    rcases Host.takeHeld_cases p.host id with ⟨-, hnone⟩ | ⟨first, rest, w₁, hheld, hsome, hqueue⟩
    · rw [hnone] at htaken
      cases htaken
    · have hmetrics := Host.takeHeld_metrics p.host id
      rw [htaken] at hmetrics
      rw [hsome] at htaken
      cases htaken
      have hone : p.host.heldBy id = [⟨entry, .fence h o⟩] ++ rest := hheld
      exact hf.taken hone hqueue hmetrics
  next => exact hf

/-- A callback that sets its mark is booked with the code that it was run with. -/
theorem note_balanced (hf : Balanced p.books p.host) (m : Nat × Nat) (code : ReturnCode) :
    Balanced (p.step (.note m code)).books (p.step (.note m code)).host := by
  unfold step
  dsimp only
  split
  next hmem =>
    have hfirst := hf.permuted (.refl _) (List.perm_cons_erase hmem).symm
    exact Balanced.noted (b := { p.books with running := p.books.running.erase m }) hfirst code
  next => exact hf

/-- Each step is booked as what it is. -/
theorem step_balanced (hf : Balanced p.books p.host) {move : Move}
    (hmove : move.toJournals = true) :
    Balanced (p.step move).books (p.step move).host := by
  cases move with
  | operate k op => exact (mount_balanced hf k).perform hmove
  | decide k h => exact decide_balanced hf k h
  | submit m id t => exact submit_balanced hf m id t
  | takeUp id => exact takeUp_balanced hf id
  | note m code => exact note_balanced hf m code
  | settle o r => exact hf.settle o r

/-- At the start the books are empty, and so are the counters. -/
theorem start_balanced (faults : Nat → Option FaultPlan) :
    Balanced (start faults).books (start faults).host where
  attempts := rfl
  submitted := rfl
  failures := rfl
  ends := rfl
  persisted := rfl
  marked := rfl
  distinct := List.nodup_nil
  known := nofun

/-- So the books balance at the end of every run. -/
theorem run_balanced (hf : Balanced p.books p.host) (moves : List Move)
    (hmoves : ∀ move ∈ moves, move.toJournals = true) :
    Balanced (p.run moves).books (p.run moves).host := by
  induction moves generalizing p with
  | nil => exact hf
  | cons move moves ih =>
      exact ih (step_balanced hf (hmoves move List.mem_cons_self))
        fun move' hmem => hmoves move' (List.mem_cons_of_mem _ hmem)

/-- Nothing is in hand or running between whole operations. -/
theorem run_settled (moves : List Move) (hmoves : ∀ move ∈ moves, move.isOperation = true)
    (p : Process) :
    (p.run moves).books.hand = p.books.hand ∧ (p.run moves).books.running = p.books.running := by
  induction moves generalizing p with
  | nil => exact ⟨rfl, rfl⟩
  | cons move moves ih =>
      have hrest := ih (fun move' hmem => hmoves move' (List.mem_cons_of_mem _ hmem)) (p.step move)
      have hfirst := hmoves move List.mem_cons_self
      cases move with
      | operate k op => exact hrest
      | _ => cases hfirst

/-- At every moment of every run on journals that keep a state, whatever stores, handles
and threads take part, the counters agree with the books. After a run of whole operations
no marker is in hand and no callback is running. -/
theorem fences_accounted_for (faults : Nat → Option FaultPlan) {moves : List Move}
    (hmoves : ∀ move ∈ moves, move.toJournals = true) :
    Balanced ((start faults).run moves).books ((start faults).run moves).host ∧
      ((∀ move ∈ moves, move.isOperation = true) →
        ((start faults).run moves).books.hand = [] ∧
          ((start faults).run moves).books.running = []) :=
  ⟨run_balanced (start_balanced faults) moves hmoves,
    fun hwhole => run_settled moves hwhole (start faults)⟩

/-- The handle of one ledger appends while the first append is held, because the ledger
was made anew, and both appends succeed. The handle of a ledger in another store is
interrupted, joined by a second call, failed by a code, dropped, refused and held. -/
def crossing : List Move :=
  [.operate 0 (.createScriptedJournal .hold), .operate 0 .createMemoryJournal,
    .operate 0 (.createHandle ⟨1⟩ [0x6b] false), .operate 1 (.createHandle ⟨1⟩ [0x6b] false),
    .operate 0 (.fence (.writable 0) (.journal 0) (.worker 0)),
    .operate 0 (.remove .planned ⟨1⟩),
    .operate 0 (.request .planned (.bindKey ⟨1⟩ [0x6b])),
    .operate 0 (.fence (.writable 0) (.journal 1) (.worker 1)),
    .operate 0 (.completeNext 0 .ok),
    .operate 1 (.raise (.worker 2)),
    .operate 1 (.fence (.writable 1) (.journal 0) (.worker 2)),
    .operate 1 (.fence (.writable 1) (.journal 0) (.worker 3)),
    .operate 1 (.fence (.writable 1) (.journal 0) (.worker 4)),
    .operate 1 (.completeNext 0 .writeFailure),
    .operate 1 (.fence (.writable 1) (.journal 0) (.worker 5)),
    .operate 1 (.dropNext 0), .operate 1 (.shutDown 1),
    .operate 1 (.fence (.writable 1) (.journal 1) (.worker 6)),
    .operate 1 (.fence (.writable 1) (.journal 0) (.worker 7))]

/-- Eight calls were answered. Of the five markers that journals took, two ended with
success for one handle, which counts once. -/
theorem crossing_accounted_for :
    (∀ move ∈ crossing, move.toJournals = true) ∧
      ((start fun _ => none).run crossing).host.metrics.attempts = 8 ∧
      ((start fun _ => none).run crossing).books.taken = [(0, 0), (0, 1), (1, 3), (1, 4), (1, 6)] ∧
      completedWith true ((start fun _ => none).run crossing).books.log = [(0, 1), (0, 0)] ∧
      ((start fun _ => none).run crossing).host.metrics.count .fencePersisted = 1 := by
  have hbalanced := (@fences_accounted_for (fun _ => none) crossing (by decide)).1
  refine ⟨by decide, ?_, by decide, by decide, ?_⟩
  · rw [hbalanced.attempts]
    decide
  · rw [hbalanced.persisted, hbalanced.marked]
    decide

end Process

end FencedLedger
