import FencedLedger.Proofs.BookedOperations
import FencedLedger.Proofs.StoreSteps

/-!
# Interrupts survive fencing

A journal that heeds interrupts takes down the flag of the thread that submits, and refuses
the entry if the flag was raised. A fence call raises the flag again when its marker is
refused as interrupted. Nothing else that is done with handles, caches and stores touches a
flag, so a thread that was interrupted finds that out for itself, and until then it gets no
marker into a journal. Flags may be raised at any time, by whoever holds a handle of the
thread.
-/

namespace FencedLedger

namespace Interrupts

/-- A flag that is down can be taken down. -/
theorem isRaised_clear_of_down {i : Interrupts} {t : Thread} (h : i.isRaised t = false)
    (u : Thread) : (i.clear t).isRaised u = true ↔ i.isRaised u = true := by
  rw [isRaised_clear]
  refine ⟨And.left, fun hraised => ⟨hraised, ?_⟩⟩
  rintro rfl
  exact Bool.false_ne_true (h.symm.trans hraised)

end Interrupts

namespace Journal

/-- The entries that a journal took, oldest first. -/
def taken : Journal → List Journaled
  | .memory j => j.entries
  | .scripted j => j.submissions

/-- A journal that heeds no interrupts is shut down. -/
theorem submit_of_not_heeding {j : Journal} (h : j.heedsInterrupts = false)
    (interrupted : Bool) (entry : Bytes) (ack : Bool) (callback : Callback) :
    j.submit interrupted entry ack callback = (.refused .shutDown, j) := by
  cases j with
  | scripted j => cases h
  | memory j =>
      have hdown : j.shutDown = true := by simpa [heedsInterrupts] using h
      simp [submit, MemoryJournal.submit, hdown]

/-- Such a journal refuses whatever an interrupted thread submits, and stays as it is. -/
theorem submit_of_heeding {j : Journal} (h : j.heedsInterrupts = true) (entry : Bytes)
    (ack : Bool) (callback : Callback) :
    j.submit true entry ack callback = (.refused .interrupted, j) := by
  cases j with
  | scripted j => rfl
  | memory j =>
      have hup : j.shutDown = false := by simpa [heedsInterrupts] using h
      simp [submit, MemoryJournal.submit, hup]

/-- No journal takes an entry from an interrupted thread. -/
theorem submit_interrupted (j : Journal) (entry : Bytes) (ack : Bool) (callback : Callback) :
    ∃ cause, j.submit true entry ack callback = (.refused cause, j) := by
  cases hheeds : j.heedsInterrupts with
  | false => exact ⟨_, submit_of_not_heeding hheeds true entry ack callback⟩
  | true => exact ⟨_, submit_of_heeding hheeds entry ack callback⟩

end Journal

/-- Whether an operation may take down the flag of a thread: the thread asks for it, or
submits to a journal itself. -/
def Op.lowersFlag (t : Thread) : Op → Bool
  | .takeInterrupt u | .log _ u _ _ _ => u = t
  | _ => false

/-- Whether an operation is a fence call of a thread. -/
def Op.fencesOn (t : Thread) : Op → Bool
  | .fence _ _ u => u = t
  | _ => false

namespace Host

variable {w w' : Host} {t u : Thread}

/-- The entries that the journal with the given number took. -/
def takenBy (w : Host) (id : Nat) : List Journaled :=
  ((w.journals.get? id).map Journal.taken).getD []

theorem takenBy_of_journals (h : w'.journals = w.journals) (id : Nat) :
    w'.takenBy id = w.takenBy id := by
  unfold takenBy
  rw [h]

/-! ### Calls that leave flags alone -/

section Store

variable {α : Type}

/-- A call to the store touches no flag, whether it reaches the store or meets a fault. -/
theorem call_interrupts (w : Host) (c : StoreCall) (action : StoreAction α) :
    (w.call c action).2.interrupts = w.interrupts := by
  have hask : ∀ w : Host, (w.ask action).2.interrupts = w.interrupts := by
    intro w
    unfold Host.ask
    split <;> rfl
  have hentered : (w.enter c).2.interrupts = w.interrupts := by
    unfold enter
    split <;> rfl
  unfold call
  split
  next heq => rwa [heq] at hentered
  next w₁ heq =>
    rw [heq] at hentered
    exact (hask w₁).trans hentered

theorem send_interrupts (w : Host) (access : Access) (c : StoreCall) (action : StoreAction α) :
    (w.send access c action).2.interrupts = w.interrupts := by
  cases access with
  | planned => exact call_interrupts w c action
  | direct =>
      unfold send Host.ask
      dsimp only
      split <;> rfl

end Store

/-- No flag differs. -/
def SameFlags (w w' : Host) : Prop := w'.interrupts = w.interrupts

theorem SameFlags.trans {w'' : Host} (h : SameFlags w w') (h' : SameFlags w' w'') :
    SameFlags w w'' :=
  Eq.trans h' h

theorem sameFlags_holdsOfLookups : HoldsOfLookups SameFlags where
  refl _ := rfl
  trans := .trans
  request w access r := send_interrupts w access r.call r.action
  count _ _ _ _ := rfl
  gauge _ _ _ := rfl
  objects _ _ _ _ _ := rfl

theorem sameFlags_holdsOfCalls : HoldsOfCalls SameFlags where
  toHoldsOfLookups := sameFlags_holdsOfLookups
  append := sameFlags_holdsOfLookups.append (fun _ _ _ => rfl)
    fun w access entry => send_interrupts w access .append (Store.append entry)
  remove := sameFlags_holdsOfLookups.remove (fun _ _ _ _ _ _ => rfl)
    fun w access l => send_interrupts w access .remove (Store.remove w.isPresent l)

theorem sameFlags_ignoresBooks : IgnoresBooks SameFlags where
  trans := .trans
  books _ _ _ _ := rfl

theorem decideFence_sameFlags (w : Host) (h : Nat) : SameFlags w (w.decideFence h).2 :=
  sameFlags_ignoresBooks.decideFence (fun w l => call_interrupts w .fence (Store.fence l)) w h

theorem complete_sameFlags (w : Host) (callback : Callback) (report : Completion) :
    SameFlags w (w.complete callback report) :=
  sameFlags_ignoresBooks.complete (fun _ _ _ => rfl) w callback report

theorem sameFlags_holdsOfTakings : HoldsOfTakings SameFlags where
  refl _ := rfl
  trans := .trans
  journals _ _ := rfl
  complete := complete_sameFlags
  abandon := sameFlags_ignoresBooks.abandon

theorem refuseMarker_interrupts (w : Host) (t : Thread) (o : Nat) (cause : JournalError) :
    (w.refuseMarker t o cause).interrupts =
      if cause = .interrupted then w.interrupts.raise t else w.interrupts := by
  cases cause <;> rfl

/-! ### Handing entries over -/

section HandOver

variable (id : Nat) (w : Host) (t : Thread) (entry : Bytes) (ack : Bool) (callback : Callback)

/-- The flag is looked at and taken down, unless the journal is shut down or gone. -/
theorem handOver_flags :
    (w.handOver id t entry ack callback).1 = .refused .shutDown ∧
        SameFlags w (w.handOver id t entry ack callback).2 ∨
      (w.interrupts.isRaised t = true →
          (w.handOver id t entry ack callback).1 = .refused .interrupted) ∧
        (w.handOver id t entry ack callback).2.interrupts = w.interrupts.clear t := by
  unfold handOver
  cases w.journals.get? id with
  | none => exact Or.inl ⟨rfl, rfl⟩
  | some j =>
      dsimp only
      cases hheeds : j.heedsInterrupts with
      | false =>
          refine Or.inl ⟨?_, rfl⟩
          rw [j.submit_of_not_heeding hheeds]
      | true =>
          refine Or.inr ⟨fun hraised => ?_, rfl⟩
          rw [hraised, j.submit_of_heeding hheeds]

/-- A journal that heeds interrupts takes nothing from a thread whose flag is up. -/
theorem handOver_of_raised (hraised : w.interrupts.isRaised t = true) :
    (∃ cause, (w.handOver id t entry ack callback).1 = .refused cause) ∧
      ∀ k, (w.handOver id t entry ack callback).2.takenBy k = w.takenBy k := by
  unfold handOver
  cases hj : w.journals.get? id with
  | none => exact ⟨⟨_, rfl⟩, fun _ => rfl⟩
  | some j =>
      obtain ⟨cause, hrefused⟩ := j.submit_interrupted entry ack callback
      dsimp only
      rw [hraised, hrefused]
      refine ⟨⟨cause, rfl⟩, fun k => ?_⟩
      unfold takenBy
      rw [Arena.get?_modify]
      split
      next heq =>
        subst heq
        rw [hj]
        rfl
      next => rfl

end HandOver

/-- The host behind a marker that was handed over. A callback that is to be run at once is
not run yet. -/
def passMarker (w : Host) (id : Nat) (t : Thread) (h o : Nat) : Host :=
  match w.handMarker id t h o with
  | (.refused cause, w) => w.refuseMarker t o cause
  | (.completed _, w) | (.held, w) => w

/-- The flag of the thread is as it was, or raised because the journal said so; other
threads do not notice. -/
theorem passMarker_flags (w : Host) (id : Nat) (t : Thread) (h o : Nat) (u : Thread) :
    (w.passMarker id t h o).interrupts.isRaised u = true ↔
      w.interrupts.isRaised u = true ∨
        u = t ∧ (w.handMarker id t h o).1 = .refused .interrupted := by
  have hflags := handOver_flags id w t (Entry.fenceMarker (w.handleAt h).ledger)
    (w.handleAt h).ackBeforeSync (.fence h o)
  unfold passMarker handMarker
  dsimp only
  generalize w.handOver id t (Entry.fenceMarker (w.handleAt h).ledger)
    (w.handleAt h).ackBeforeSync (.fence h o) = r at hflags ⊢
  obtain ⟨verdict, w₁⟩ := r
  dsimp only at hflags ⊢
  rcases hflags with ⟨rfl, hsame⟩ | ⟨hheeded, hcleared⟩
  · change w₁.interrupts.isRaised u = true ↔ _
    rw [hsame]
    simp
  · -- a thread that is heeded and not refused for it had its flag down
    have hdown : verdict ≠ .refused .interrupted → w.interrupts.isRaised t = false :=
      fun hne => Bool.eq_false_iff.mpr fun hraised => hne (hheeded hraised)
    by_cases hverdict : verdict = .refused .interrupted
    · subst hverdict
      change (w₁.interrupts.raise t).isRaised u = true ↔ _
      rw [Interrupts.isRaised_raise, hcleared, Interrupts.isRaised_clear]
      by_cases hu : u = t <;> simp [hu]
    · have hkept : w₁.interrupts.isRaised u = true ↔ w.interrupts.isRaised u = true := by
        rw [hcleared, Interrupts.isRaised_clear_of_down (hdown hverdict)]
      cases verdict with
      | refused cause =>
          have hcause : cause ≠ .interrupted := fun heq => hverdict (congrArg _ heq)
          dsimp only
          rw [refuseMarker_interrupts, if_neg hcause, hkept]
          simp [hcause]
      | completed report => simp [hkept]
      | held => simp [hkept]

/-- Nor does it take a marker from such a thread. -/
theorem passMarker_takenBy (hraised : w.interrupts.isRaised t = true) (id h o k : Nat) :
    (w.passMarker id t h o).takenBy k = w.takenBy k := by
  obtain ⟨⟨cause, hrefused⟩, htaken⟩ := handOver_of_raised id w t
    (Entry.fenceMarker (w.handleAt h).ledger) (w.handleAt h).ackBeforeSync (.fence h o) hraised
  unfold passMarker handMarker
  dsimp only
  generalize w.handOver id t (Entry.fenceMarker (w.handleAt h).ledger)
    (w.handleAt h).ackBeforeSync (.fence h o) = r at hrefused htaken ⊢
  obtain ⟨verdict, w₁⟩ := r
  cases hrefused
  exact (takenBy_of_journals (refuseMarker_journals w₁ t o cause) k).trans (htaken k)

/-- To submit a marker is to hand it over and to run its callback if need be. -/
theorem submitMarker_sameFlags (w : Host) (id : Nat) (t : Thread) (h o : Nat) :
    SameFlags (w.passMarker id t h o) (w.submitMarker (submitTo id) t h o) := by
  unfold passMarker submitMarker handMarker
  dsimp only
  rw [submitTo_eq_handOver]
  generalize w.handOver id t (Entry.fenceMarker (w.handleAt h).ledger)
    (w.handleAt h).ackBeforeSync (.fence h o) = r
  obtain ⟨verdict, w₁⟩ := r
  cases verdict with
  | refused cause => rfl
  | completed report => exact complete_sameFlags w₁ (.fence h o) report
  | held => rfl

/-! ### Fence calls -/

/-- A marker was refused as interrupted just if its submission has that event. -/
theorem refused_mem_submissionEvents (w : Host) (id : Nat) (t : Thread) (h o : Nat) :
    (∃ h' o', .refused h' o' .interrupted ∈ w.submissionEvents id t h o) ↔
      (w.handMarker id t h o).1 = .refused .interrupted := by
  unfold submissionEvents handMarker
  dsimp only
  rw [handOver_verdict]
  cases w.verdict id t (Entry.fenceMarker (w.handleAt h).ledger) (w.handleAt h).ackBeforeSync
    (.fence h o) with
  | refused cause => simp [eq_comm]
  | completed report => simp
  | held => simp

/-- After a fence call, the flags that are up are those from before, and the one raised
again. -/
theorem fenceWith_flags (w : Host) (id : Nat) (t : Thread) (h : Nat) (u : Thread) :
    (w.fenceWith (submitTo id) t h).2.interrupts.isRaised u = true ↔
      w.interrupts.isRaised u = true ∨
        u = t ∧ ∃ h' o, .refused h' o .interrupted ∈ w.fenceEvents id t h := by
  have hdecided := decideFence_sameFlags w h
  unfold fenceWith fenceEvents
  generalize w.decideFence h = r at hdecided ⊢
  obtain ⟨e | ⟨path, o⟩, w₁⟩ := r
  · have hsame : w₁.interrupts = w.interrupts := hdecided
    simp [hsame]
  · have hsame : w₁.interrupts = w.interrupts := hdecided
    cases path with
    | first | retry =>
        have hpassed := passMarker_flags w₁ id t h o u
        rw [← submitMarker_sameFlags, hsame, ← refused_mem_submissionEvents] at hpassed
        simpa [appends] using hpassed
    | inFlight | alreadyPersisted => simp [appends, hsame]

/-- The flag of a thread is up after a fence call if it was before or if its marker was
refused. -/
theorem fence_flags (w : Host) (handle : HandleRef) (id : Nat) (t u : Thread) :
    (w.perform (.fence handle (.journal id) t)).2.interrupts.isRaised u = true ↔
      w.interrupts.isRaised u = true ∨
        u = t ∧
          ∃ h o, .refused h o .interrupted ∈ w.markerEvents (.fence handle (.journal id) t) := by
  change (w.whenHeld _ _).2.interrupts.isRaised u = true ↔ _
  unfold whenHeld
  cases handle with
  | reader r => split <;> simp [markerEvents, answer, fence, fenceThrough]
  | writable h =>
      simp only [markerEvents]
      split
      next hheld =>
        rw [answer_host]
        exact fenceWith_flags w id t h u
      next => simp

/-! ### Any path to a journal -/

/-- A way to submit that neither drops the interrupts of other threads nor takes an entry
from an interrupted one. -/
structure Heedful (s : Submit) : Prop where
  others : ∀ {t u}, u ≠ t → ∀ w entry ack callback,
    (s w t entry ack callback).2.interrupts.isRaised u = w.interrupts.isRaised u
  refuses : ∀ {w t}, w.interrupts.isRaised t = true → ∀ entry ack callback,
    ∃ cause, (s w t entry ack callback).1 = .error cause ∧
      (cause ≠ .interrupted → (s w t entry ack callback).2.interrupts.isRaised t = true)
  takenBy : ∀ {w t}, w.interrupts.isRaised t = true → ∀ entry ack callback k,
    (s w t entry ack callback).2.takenBy k = w.takenBy k

namespace Heedful

variable {s : Submit} (hs : Heedful s)

include hs

/-- Submitting a marker touches no flag of another thread. -/
theorem submitMarker_others (hu : u ≠ t) (w : Host) (h o : Nat) :
    (w.submitMarker s t h o).interrupts.isRaised u = w.interrupts.isRaised u := by
  have hsubmitted := hs.others hu w (Entry.fenceMarker (w.handleAt h).ledger)
    (w.handleAt h).ackBeforeSync (.fence h o)
  unfold submitMarker
  dsimp only
  split
  next heq => rwa [heq] at hsubmitted
  next cause w₁ heq =>
    rw [heq] at hsubmitted
    rw [refuseMarker_interrupts]
    split
    next =>
      rw [Bool.eq_iff_iff, Interrupts.isRaised_raise, ← hsubmitted]
      exact or_iff_left hu
    next => exact hsubmitted

/-- A thread whose flag is up keeps it through a submission, and its marker is not taken. -/
theorem submitMarker_raised (hraised : w.interrupts.isRaised t = true) (h o : Nat) :
    (w.submitMarker s t h o).interrupts.isRaised t = true ∧
      ∀ k, (w.submitMarker s t h o).takenBy k = w.takenBy k := by
  obtain ⟨cause, hrefused, hstill⟩ := hs.refuses hraised
    (Entry.fenceMarker (w.handleAt h).ledger) (w.handleAt h).ackBeforeSync (.fence h o)
  have htaken := hs.takenBy hraised (Entry.fenceMarker (w.handleAt h).ledger)
    (w.handleAt h).ackBeforeSync (.fence h o)
  unfold submitMarker
  dsimp only
  generalize s w t (Entry.fenceMarker (w.handleAt h).ledger) (w.handleAt h).ackBeforeSync
    (.fence h o) = r at hrefused hstill htaken ⊢
  obtain ⟨answer, w₁⟩ := r
  cases hrefused
  refine ⟨?_, fun k => ?_⟩
  · dsimp only
    rw [refuseMarker_interrupts]
    split
    next => exact (Interrupts.isRaised_raise _ t t).mpr (Or.inr rfl)
    next hcause => exact hstill hcause
  · exact (takenBy_of_journals (refuseMarker_journals w₁ t o cause) k).trans (htaken k)

/-- A fence call touches no flag of another thread. -/
theorem fenceThrough_others (hu : u ≠ t) (w : Host) (handle : HandleRef) :
    (w.fenceThrough s t handle).2.interrupts.isRaised u = w.interrupts.isRaised u := by
  cases handle with
  | reader r => rfl
  | writable h =>
      have hdecided := decideFence_sameFlags w h
      change (w.fenceWith s t h).2.interrupts.isRaised u = _
      unfold fenceWith
      split
      next heq =>
        rw [heq] at hdecided
        exact congrArg (Interrupts.isRaised · u) hdecided
      next decision w₁ heq =>
        rw [heq] at hdecided
        rw [← congrArg (Interrupts.isRaised · u) hdecided]
        dsimp only
        split
        next => exact hs.submitMarker_others hu w₁ h decision.outcome
        next => rfl

/-- A thread whose flag is up makes fence calls in vain: no marker of it is taken. -/
theorem fenceThrough_raised (hraised : w.interrupts.isRaised t = true) (handle : HandleRef) :
    (w.fenceThrough s t handle).2.interrupts.isRaised t = true ∧
      ∀ k, (w.fenceThrough s t handle).2.takenBy k = w.takenBy k := by
  cases handle with
  | reader r => exact ⟨hraised, fun _ => rfl⟩
  | writable h =>
      have hdecided := decideFence_sameFlags w h
      have hjournals := (decideFence_decides w h).journals
      change (w.fenceWith s t h).2.interrupts.isRaised t = true ∧
        ∀ k, (w.fenceWith s t h).2.takenBy k = w.takenBy k
      unfold fenceWith
      generalize w.decideFence h = r at hdecided hjournals ⊢
      obtain ⟨answer, w₁⟩ := r
      have hfirst : w₁.interrupts.isRaised t = true ∧ ∀ k, w₁.takenBy k = w.takenBy k :=
        ⟨(congrArg (Interrupts.isRaised · t) hdecided).trans hraised,
          takenBy_of_journals hjournals⟩
      cases answer with
      | error e => exact hfirst
      | ok decision =>
          dsimp only
          split
          next =>
            obtain ⟨hstill, htaken⟩ := hs.submitMarker_raised hfirst.1 h decision.outcome
            exact ⟨hstill, fun k => (htaken k).trans (hfirst.2 k)⟩
          next => exact hfirst

end Heedful

/-- A submission to a journal heeds interrupts. -/
theorem submitTo_heedful (id : Nat) : Heedful (submitTo id) where
  others {t u} hu w entry ack callback := by
    have hflags := handOver_flags id w t entry ack callback
    rw [submitTo_eq_handOver]
    generalize w.handOver id t entry ack callback = r at hflags ⊢
    obtain ⟨verdict, w₁⟩ := r
    have hfirst : w₁.interrupts.isRaised u = w.interrupts.isRaised u := by
      rcases hflags with ⟨-, hsame⟩ | ⟨-, hcleared⟩
      · exact congrArg (Interrupts.isRaised · u) hsame
      · have hcleared : w₁.interrupts = w.interrupts.clear t := hcleared
        rw [hcleared, Bool.eq_iff_iff, Interrupts.isRaised_clear]
        exact and_iff_left hu
    cases verdict with
    | completed report =>
        -- running the callback takes no flag down
        exact (congrArg (Interrupts.isRaised · u)
          (complete_sameFlags w₁ callback report)).trans hfirst
    | refused | held => exact hfirst
  refuses {w t} hraised entry ack callback := by
    have hflags := handOver_flags id w t entry ack callback
    obtain ⟨⟨cause, hrefused⟩, -⟩ := handOver_of_raised id w t entry ack callback hraised
    rw [submitTo_eq_handOver]
    generalize w.handOver id t entry ack callback = r at hflags hrefused ⊢
    obtain ⟨verdict, w₁⟩ := r
    cases hrefused
    refine ⟨cause, rfl, fun hcause => ?_⟩
    -- if the flag was taken down, the refusal says so
    rcases hflags with ⟨-, hsame⟩ | ⟨hheeded, -⟩
    · exact (congrArg (Interrupts.isRaised · t) hsame).trans hraised
    · exact absurd (Verdict.refused.inj (hheeded hraised)) hcause
  takenBy {w t} hraised entry ack callback k := by
    obtain ⟨⟨cause, hrefused⟩, htaken⟩ :=
      handOver_of_raised id w t entry ack callback hraised
    rw [submitTo_eq_handOver]
    generalize w.handOver id t entry ack callback = r at hrefused htaken ⊢
    obtain ⟨verdict, w₁⟩ := r
    cases hrefused
    exact htaken k

/-- A journal that fences on the way fences on the same thread, so every path heeds
interrupts. -/
theorem submit_heedful (path : JournalPath) : Heedful (submit path) := by
  induction path with
  | journal id => exact submitTo_heedful id
  | reportThenRefuse code cause =>
      refine ⟨fun {t u} hu w entry ack callback => ?_, fun {w t} hraised entry ack callback => ?_,
        fun {w t} hraised entry ack callback k => ?_⟩
      · exact congrArg (Interrupts.isRaised · u) (complete_sameFlags w callback _)
      · refine ⟨cause, rfl, fun _ => ?_⟩
        exact (congrArg (Interrupts.isRaised · t) (complete_sameFlags w callback _)).trans hraised
      · exact takenBy_of_journals (complete_journals w callback _) k
  | refencing handle inner ih =>
      -- the handle on the way is fenced first, which leaves the flag raised
      refine ⟨fun {t u} hu w entry ack callback => ?_, fun {w t} hraised entry ack callback => ?_,
        fun {w t} hraised entry ack callback k => ?_⟩
      · exact (ih.others hu _ _ _ _).trans (ih.fenceThrough_others hu w handle)
      · refine ih.refuses ?_ entry ack callback
        exact (ih.fenceThrough_raised hraised handle).1
      · obtain ⟨hstill, htaken⟩ := ih.fenceThrough_raised hraised handle
        refine (ih.takenBy ?_ entry ack callback k).trans (htaken k)
        exact hstill

/-! ### Operations -/

/-- A fence call of a thread whose flag is up gets no marker into any journal. -/
theorem fence_takenBy (hraised : w.interrupts.isRaised t = true) {op : Op}
    (hop : op.fencesOn t = true) (k : Nat) : (w.perform op).2.takenBy k = w.takenBy k := by
  cases op with
  | fence handle path u =>
      have hu : u = t := of_decide_eq_true hop
      subst hu
      refine whenHeld_host (P := fun w' => w'.takenBy k = w.takenBy k) rfl ?_
      rw [answer_host]
      exact ((submit_heedful path).fenceThrough_raised hraised handle).2 k
  | _ => cases hop

/-- Only a submission on the thread itself, or the thread's own asking, takes its flag down. -/
theorem perform_raised (hraised : w.interrupts.isRaised t = true) {op : Op}
    (hop : op.lowersFlag t = false) : (w.perform op).2.interrupts.isRaised t = true := by
  have hsame : ∀ {w'}, SameFlags w w' → w'.interrupts.isRaised t = true := fun h =>
    (congrArg (Interrupts.isRaised · t) h).trans hraised
  cases op with
  | fence handle path u =>
      refine whenHeld_host (P := fun w' => w'.interrupts.isRaised t = true) hraised ?_
      rw [answer_host]
      -- a fence call on the thread itself raises the flag again if it took it down
      by_cases hu : t = u
      · subst hu
        exact ((submit_heedful path).fenceThrough_raised hraised handle).1
      · exact ((submit_heedful path).fenceThrough_others hu w handle).trans hraised
  | log path u entry ack label =>
      -- on the thread itself a submission would have lowered the flag
      have hu : t ≠ u := fun heq => of_decide_eq_false hop heq.symm
      refine whenHeld_host (P := fun w' => w'.interrupts.isRaised t = true) hraised ?_
      rw [answer_host]
      exact ((submit_heedful path).others hu _ _ _ _).trans hraised
  | raise u => exact (Interrupts.isRaised_raise _ u t).mpr (Or.inl hraised)
  | takeInterrupt u =>
      have hu : t ≠ u := fun heq => of_decide_eq_false hop heq.symm
      exact (Interrupts.isRaised_clear _ u t).mpr ⟨hraised, hu⟩
  | completeNext id code => exact hsame (sameFlags_holdsOfTakings.completeNext w id code)
  | completeAll id code =>
      exact hsame (sameFlags_holdsOfTakings.releases.completeUpTo id code _ w)
  | dropNext id => exact hsame (sameFlags_holdsOfTakings.dropNext w id)
  | releaseJournal id =>
      refine whenHeld_host (P := fun w' => w'.interrupts.isRaised t = true) hraised ?_
      exact hsame (sameFlags_holdsOfTakings.releaseJournal w id)
  | unobserve | releaseCache =>
      exact whenHeld_host (P := fun w' => w'.interrupts.isRaised t = true) hraised hraised
  | observe | createCache | planFault | clearFaults | startWorker | createMemoryJournal
  | createScriptedJournal | shutDown | setMode | queueFailure | createOutcome => exact hraised
  | _ => exact hsame (sameFlags_holdsOfCalls.perform w rfl)

end Host

end FencedLedger
