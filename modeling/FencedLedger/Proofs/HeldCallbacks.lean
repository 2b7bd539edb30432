import FencedLedger.Proofs.Effects

/-!
# Held callbacks

Journals hold callbacks back, in order of submission. A submission may put one
at the end of a queue, a completion takes the first one off, and a journal that
is let go loses its queue.
-/

namespace FencedLedger

/-- What a journal makes of a submission decides on its queue. -/
theorem Journal.submit_held (j : Journal) (interrupted : Bool) (entry : Bytes) (ack : Bool)
    (callback : Callback) :
    (j.submit interrupted entry ack callback).2.held =
      if (j.submit interrupted entry ack callback).1 = .held then
        j.held ++ [⟨entry, callback⟩]
      else j.held := by
  cases j with
  | memory j =>
      unfold submit MemoryJournal.submit
      dsimp only
      split
      next => rfl
      next =>
        split
        next => rfl
        next => split <;> rfl
  | scripted j =>
      unfold submit ScriptedJournal.submit
      dsimp only
      split
      next => rfl
      next =>
        split
        next => rfl
        next => split <;> rfl

namespace Host

variable {w w' w'' : Host}

theorem heldBy_eq (w : Host) (id : Nat) :
    w.heldBy id = ((w.journals.get? id).map Journal.held).getD [] := by
  unfold heldBy
  cases w.journals.get? id <;> rfl

theorem heldBy_of_journals (h : w'.journals = w.journals) (id : Nat) :
    w'.heldBy id = w.heldBy id := by
  rw [heldBy_eq, h, heldBy_eq]

/-- The queue of one journal is `queue` now; handles, outcomes and other queues
are as they were. -/
structure Requeues (id : Nat) (queue : List Held) (w w' : Host) : Prop where
  handles : w'.handles = w.handles
  outcomes : w'.outcomes = w.outcomes
  queue : w'.heldBy id = queue
  others : ∀ id', id ≠ id' → w'.heldBy id' = w.heldBy id'

theorem Requeues.refl (id : Nat) (w : Host) : Requeues id (w.heldBy id) w w :=
  ⟨rfl, rfl, rfl, fun _ _ => rfl⟩

/-- A journal that is modified holds what is made of it, and the others hold what they held. -/
theorem requeues_modify {id : Nat} {f : Journal → Journal} {j : Journal}
    (hj : w.journals.get? id = some j) (hhandles : w'.handles = w.handles)
    (houtcomes : w'.outcomes = w.outcomes)
    (hjournals : w'.journals = w.journals.modify id f) : Requeues id (f j).held w w' where
  handles := hhandles
  outcomes := houtcomes
  queue := by
    rw [heldBy_eq, hjournals, Arena.get?_modify, if_pos rfl, hj]
    rfl
  others id' hne := by
    rw [heldBy_eq, hjournals, Arena.get?_modify, if_neg hne, heldBy_eq]

theorem requeues_of_heldBy (hhandles : w'.handles = w.handles)
    (houtcomes : w'.outcomes = w.outcomes) (hheld : ∀ id, w'.heldBy id = w.heldBy id)
    (id : Nat) : Requeues id (w.heldBy id) w w' :=
  ⟨hhandles, houtcomes, hheld id, fun id' _ => hheld id'⟩

/-! ### Submissions -/

/-- What the journal with the given number makes of a submission. -/
def verdict (w : Host) (id : Nat) (t : Thread) (entry : Bytes) (ack : Bool)
    (callback : Callback) : Verdict :=
  match w.journals.get? id with
  | none => .refused .shutDown
  | some journal => (journal.submit (w.interrupts.isRaised t) entry ack callback).1

/-- Hand an entry to the journal with the given number. A callback that is to be run
at once is not run yet. -/
def handOver (w : Host) (id : Nat) (t : Thread) (entry : Bytes) (ack : Bool)
    (callback : Callback) : Verdict × Host :=
  match w.journals.get? id with
  | none => (.refused .shutDown, w)
  | some journal =>
      let (verdict, journal') :=
        journal.submit (w.interrupts.isRaised t) entry ack callback
      let interrupts :=
        if journal.heedsInterrupts then w.interrupts.clear t else w.interrupts
      (verdict, { w with journals := w.journals.modify id fun _ => journal', interrupts })

section HandOver

variable (id : Nat) (w : Host) (t : Thread) (entry : Bytes) (ack : Bool) (callback : Callback)

theorem handOver_verdict :
    (w.handOver id t entry ack callback).1 = w.verdict id t entry ack callback := by
  unfold handOver verdict
  split <;> rfl

/-- A submission hands the entry over and runs the callback if it is to be run at
once. -/
theorem submitTo_eq_handOver :
    submitTo id w t entry ack callback =
      match w.handOver id t entry ack callback with
      | (.refused cause, w) => (.error cause, w)
      | (.completed report, w) => (.ok (), w.complete callback report)
      | (.held, w) => (.ok (), w) := by
  unfold submitTo handOver
  cases w.journals.get? id with
  | none => rfl
  | some j =>
      dsimp only
      rcases j.submit (w.interrupts.isRaised t) entry ack callback with ⟨v, j'⟩
      cases v <;> rfl

theorem handOver_metrics : (w.handOver id t entry ack callback).2.metrics = w.metrics := by
  unfold handOver
  split <;> rfl

/-- Only a journal that holds the callback back has a longer queue. -/
theorem handOver_requeues :
    Requeues id
      (if (w.handOver id t entry ack callback).1 = .held then
        w.heldBy id ++ [⟨entry, callback⟩]
      else w.heldBy id) w (w.handOver id t entry ack callback).2 := by
  unfold handOver
  cases hj : w.journals.get? id with
  | none => exact .refl id w
  | some j =>
      have hqueue : w.heldBy id = j.held := by
        rw [heldBy_eq, hj]
        rfl
      rw [hqueue, ← j.submit_held (w.interrupts.isRaised t) entry ack callback]
      refine requeues_modify
        (f := fun _ => (j.submit (w.interrupts.isRaised t) entry ack callback).2) hj ?_ ?_ ?_ <;>
        rfl

end HandOver

/-- How a submission ends, by what the journal makes of it. -/
inductive Submits (id : Nat) (entry : Bytes) (callback : Callback) (w : Host) :
    Verdict → Except JournalError Unit × Host → Prop where
  | refused (cause : JournalError) (w' : Host) (h : Requeues id (w.heldBy id) w w') :
      Submits id entry callback w (.refused cause) (.error cause, w')
  | completed (report : Completion) (w' : Host) (h : Requeues id (w.heldBy id) w w') :
      Submits id entry callback w (.completed report) (.ok (), w'.complete callback report)
  | held (w' : Host) (h : Requeues id (w.heldBy id ++ [⟨entry, callback⟩]) w w') :
      Submits id entry callback w .held (.ok (), w')

/-- A submission has one of the verdicts, and the queue is what the verdict makes of it. -/
theorem submitTo_submits (id : Nat) (w : Host) (t : Thread) (entry : Bytes) (ack : Bool)
    (callback : Callback) :
    Submits id entry callback w (w.verdict id t entry ack callback)
      (submitTo id w t entry ack callback) := by
  have hqueue := handOver_requeues id w t entry ack callback
  rw [submitTo_eq_handOver, ← handOver_verdict]
  generalize w.handOver id t entry ack callback = r at hqueue ⊢
  obtain ⟨v, w₁⟩ := r
  cases v with
  | refused cause => exact .refused cause w₁ hqueue
  | completed report => exact .completed report w₁ hqueue
  | held => exact .held w₁ hqueue

/-! ### Completions -/

theorem complete_journals (w : Host) (callback : Callback) (report : Completion) :
    (w.complete callback report).journals = w.journals := by
  cases callback with
  | fence h o => exact (noteMarker_same w h report.code).2
  | report label => rfl

theorem abandon_journals (w : Host) (callback : Callback) :
    (w.abandon callback).journals = w.journals := by
  cases callback <;> rfl

theorem refuseMarker_journals (w : Host) (t : Thread) (o : Nat) (cause : JournalError) :
    (w.refuseMarker t o cause).journals = w.journals := by
  cases cause <;> rfl

theorem heldBy_complete (w : Host) (callback : Callback) (report : Completion) (id : Nat) :
    (w.complete callback report).heldBy id = w.heldBy id :=
  heldBy_of_journals (complete_journals w callback report) id

/-- A journal gives its first callback away, if it holds any. -/
theorem takeHeld_cases (w : Host) (id : Nat) :
    w.heldBy id = [] ∧ w.takeHeld id = (none, w) ∨
      ∃ first rest w', w.heldBy id = first :: rest ∧ w.takeHeld id = (some first, w') ∧
        Requeues id rest w w' := by
  unfold takeHeld
  cases hheld : w.heldBy id with
  | nil => exact Or.inl ⟨rfl, rfl⟩
  | cons first rest =>
      refine Or.inr ⟨first, rest, _, rfl, rfl, ?_⟩
      rw [heldBy_eq] at hheld
      cases hj : w.journals.get? id with
      | none => rw [hj] at hheld; cases hheld
      | some j =>
          rw [hj] at hheld
          cases j with
          | memory j => cases hheld -- it reports at once
          | scripted j =>
              have hjournals : (w.modifyScripted id fun j => { j with held := rest }).journals =
                  w.journals.modify id _ := rfl
              have hqueue := requeues_modify hj (by rfl) (by rfl) hjournals
              exact hqueue

/-- A journal that is let go holds nothing. -/
theorem release_requeues (w : Host) (id : Nat) :
    Requeues id [] w { w with journals := w.journals.release id } where
  handles := rfl
  outcomes := rfl
  queue := by
    rw [heldBy_eq]
    change ((Arena.get? (w.journals.release id) id).map _).getD _ = _
    rw [Arena.get?_release, if_pos rfl]
    rfl
  others id' hne := by
    rw [heldBy_eq, heldBy_eq]
    change ((Arena.get? (w.journals.release id) id').map _).getD _ = _
    rw [Arena.get?_release, if_neg hne]

/-! ### Setting up journals -/

end Host

/-- Whether an operation makes a journal or tells one what to do next. -/
def Op.setsUpJournal : Op → Bool
  | .createMemoryJournal | .createScriptedJournal _ | .shutDown _ | .setMode ..
  | .queueFailure .. => true
  | _ => false

namespace Host

variable {w w' : Host}

/-- A new journal holds nothing back. -/
theorem heldBy_add {j : Journal} (hj : j.held = []) (hjournals : w'.journals = w.journals.add j)
    (id : Nat) : w'.heldBy id = w.heldBy id := by
  rw [heldBy_eq, hjournals, Arena.get?_add, heldBy_eq]
  split
  next hnext =>
    rw [w.journals.get?_of_next_le (Nat.le_of_eq hnext.symm)]
    exact hj
  next => rfl

theorem heldBy_modify {id' : Nat} {f : Journal → Journal} (hkeep : ∀ j, (f j).held = j.held)
    (hjournals : w'.journals = w.journals.modify id' f) (id : Nat) :
    w'.heldBy id = w.heldBy id := by
  rw [heldBy_eq, hjournals, Arena.get?_modify, heldBy_eq]
  split
  next =>
    cases w.journals.get? id with
    | none => rfl
    | some j => exact hkeep j
  next => rfl

/-- Setting a journal up, or up differently, leaves what it holds. -/
theorem setUp_requeues (w : Host) {op : Op} (hop : op.setsUpJournal = true) (id : Nat) :
    Requeues id (w.heldBy id) w (w.perform op).2 := by
  cases op with
  | createMemoryJournal =>
      refine requeues_of_heldBy (by rfl) (by rfl) ?_ id
      intro k
      exact heldBy_add (j := .memory .empty) rfl rfl k
  | createScriptedJournal mode =>
      refine requeues_of_heldBy (by rfl) (by rfl) ?_ id
      intro k
      exact heldBy_add (j := .scripted (.start mode)) rfl rfl k
  | shutDown id' =>
      refine requeues_of_heldBy (by rfl) (by rfl) ?_ id
      intro k
      refine heldBy_modify ?_ rfl k
      rintro (j | j) <;> rfl
  | setMode id' mode =>
      refine requeues_of_heldBy (by rfl) (by rfl) ?_ id
      intro k
      refine heldBy_modify ?_ rfl k
      rintro (j | j) <;> rfl
  | queueFailure id' cause =>
      refine requeues_of_heldBy (by rfl) (by rfl) ?_ id
      intro k
      refine heldBy_modify ?_ rfl k
      rintro (j | j) <;> rfl
  | _ => cases hop

end Host

end FencedLedger
