import FencedLedger.Proofs.FenceBooks
import FencedLedger.Proofs.OutcomeRuns

/-!
# Operations in the books

Every operation on journals that keep a state goes into the books, and its counts agree
with what is written. A fence call is decided, hands over its marker if it appends, and
has the callback run if the journal reports at once; each of these steps agrees by
itself, so that calls may also take turns. Paths that refuse what they reported, or fence
on the way, are left out: they end an append twice.
-/

namespace FencedLedger

/-- Whether an operation is a fence call. -/
def Op.isFence : Op → Bool
  | .fence .. => true
  | _ => false

namespace Host

/-! ### Fence calls -/

/-- The marker of a call that appends. -/
def FenceDecision.marker? (d : FenceDecision) (h : Nat) : Option (Nat × Nat) :=
  if appends d.path then some (h, d.outcome) else none

/-- Hand a marker to the journal with the given number. -/
def handMarker (w : Host) (id : Nat) (t : Thread) (h o : Nat) : Verdict × Host :=
  let handle := w.handleAt h
  w.handOver id t (Entry.fenceMarker handle.ledger) handle.ackBeforeSync (.fence h o)

/-- The marker, if the journal takes it. -/
def acceptedMarkers (w : Host) (id : Nat) (t : Thread) (h o : Nat) : List (Nat × Nat) :=
  match (w.handMarker id t h o).1 with
  | .refused _ => []
  | .completed _ | .held => [(h, o)]

/-- The marker of a fence call, if there is one and the journal takes it. -/
def takenMarkers (w : Host) (id : Nat) (t : Thread) (h : Nat) : List (Nat × Nat) :=
  match w.decideFence h with
  | (.error _, _) => []
  | (.ok d, w) => if appends d.path then w.acceptedMarkers id t h d.outcome else []

/-- The markers that journals take in an operation. -/
def markersTaken (w : Host) : Op → List (Nat × Nat)
  | .fence (.writable h) (.journal id) t =>
      if w.knowsHandle (.writable h) && w.knowsPath (.journal id) then w.takenMarkers id t h
      else []
  | _ => []

/-- How many fence calls an operation answers with an outcome. -/
def fenceAnswers (w : Host) (op : Op) : Nat :=
  match op with
  | .fence .. => if (w.perform op).1.isOk then 1 else 0
  | _ => 0

end Host

/-- The books after an operation. -/
def FenceBooks.operated (b : FenceBooks) (w : Host) (op : Op) : FenceBooks :=
  { b with
    answered := b.answered + w.fenceAnswers op
    taken := b.taken ++ w.markersTaken op
    log := b.log ++ w.markerEvents op }

theorem FenceBooks.operated_of_not_fence (b : FenceBooks) (w : Host) {op : Op}
    (hop : op.isFence = false) :
    b.operated w op = { b with log := b.log ++ w.markerEvents op } := by
  cases op with
  | fence => cases hop
  | _ => simp [operated, Host.fenceAnswers, Host.markersTaken]

/-- Other operations leave the books as they are, unless they end appends. -/
theorem FenceBooks.operated_of_quiet (b : FenceBooks) (w : Host) {op : Op}
    (hop : op.isFence = false) (hends : op.endsAppends = false) : b.operated w op = b := by
  rw [b.operated_of_not_fence w hop]
  cases op with
  | fence => cases hop
  | completeNext | completeAll | dropNext | releaseJournal => cases hends
  | _ => simp [Host.markerEvents]

namespace Host.Balanced

variable {b : FenceBooks} {w w' : Host} {h o : Nat}

/-- A decision is entered as answered, and its marker, if it appends one, as in hand. -/
theorem decide {d : FenceDecision} (hb : Balanced b w) (hknown : w.handles.holds h = true)
    (hdecide : w.decideFence h = (.ok d, w')) :
    Balanced
      { b with answered := b.answered + 1, hand := (d.marker? h).toList ++ b.hand } w' := by
  have hdecides := decideFence_decides w h
  have hcounts := decideFence_counts w h
  rw [hdecide] at hdecides hcounts
  have hput : PutsUp h w w' → ∀ m ∈ some (h, w.outcomes.next),
      w'.handles.holds m.1 = true ∧ w.outcomes.next ≤ m.2 ∧ m.2 < w'.outcomes.next := by
    rintro puts m hm
    cases hm
    rw [puts.outcomes, Arena.next_add]
    exact ⟨puts.keepsMarks.holds hknown, Nat.le_refl _, Nat.lt_succ_self _⟩
  have hnone : ∀ m ∈ (none : Option (Nat × Nat)),
      w'.handles.holds m.1 = true ∧ w.outcomes.next ≤ m.2 ∧ m.2 < w'.outcomes.next := nofun
  cases hdecides with
  | first w' sets clear puts =>
      exact hb.decided puts.keepsMarks sets.journals hcounts rfl (hput puts)
  | retry w' sets fenced unmarked idle puts =>
      exact hb.decided puts.keepsMarks sets.journals hcounts rfl (hput puts)
  | inFlight o w' sets fenced unmarked underWay handles outcomes =>
      refine hb.decided (keepsMarks_of_eq handles ?_) sets.journals hcounts rfl hnone
      exact Nat.le_of_eq (congrArg Arena.next outcomes.symm)
  | alreadyPersisted w' sets fenced marked handles outcomes =>
      refine hb.decided (keepsMarks_of_eq handles ?_) sets.journals hcounts rfl hnone
      rw [outcomes, Arena.next_add]
      exact Nat.le_succ _

/-- A decision that fails is no call in the books. -/
theorem undecided {e : HandleError} (hb : Balanced b w)
    (hdecide : w.decideFence h = (.error e, w')) : Balanced b w' := by
  have hdecides := decideFence_decides w h
  have hcounts := decideFence_counts w h
  rw [hdecide] at hdecides hcounts
  cases hdecides with
  | failed e w' idle =>
      exact hb.frame idle.storeOnly.calm.keepsMarks hcounts
        (heldMarkers_of_journals idle.journals)

/-- How the books go on when a marker was handed over. -/
inductive HandsOver (b : FenceBooks) (t : Thread) (h o : Nat) : Verdict × Host → Prop where
  | refused (cause : JournalError) (w' : Host) (hb : Balanced b (w'.refuseMarker t o cause)) :
      HandsOver b t h o (.refused cause, w')
  | completed (report : Completion) (w' : Host)
      (hb : Balanced
        { b with taken := b.taken ++ [(h, o)], running := (h, o) :: b.running } w') :
      HandsOver b t h o (.completed report, w')
  | held (w' : Host) (hb : Balanced { b with taken := b.taken ++ [(h, o)] } w') :
      HandsOver b t h o (.held, w')

/-- A marker that is handed over leaves the hand: a journal took it, ran it at once or refused
it. -/
theorem handMarker (hb : Balanced { b with hand := (h, o) :: b.hand } w) (id : Nat)
    (t : Thread) : HandsOver b t h o (w.handMarker id t h o) := by
  have hqueue := handOver_requeues id w t (Entry.fenceMarker (w.handleAt h).ledger)
    (w.handleAt h).ackBeforeSync (.fence h o)
  have hmetrics := handOver_metrics id w t (Entry.fenceMarker (w.handleAt h).ledger)
    (w.handleAt h).ackBeforeSync (.fence h o)
  unfold Host.handMarker
  dsimp only
  generalize w.handOver id t (Entry.fenceMarker (w.handleAt h).ledger)
    (w.handleAt h).ackBeforeSync (.fence h o) = r at hqueue hmetrics ⊢
  obtain ⟨v, w₁⟩ := r
  cases v with
  | refused cause =>
      have hnext := hb.requeued hqueue hmetrics rfl
      exact .refused cause w₁ (hnext.refused t cause)
  | completed report =>
      refine .completed report w₁ (hb.accepted hqueue hmetrics ?_)
      rw [← Multiset.cons_coe, ← Multiset.singleton_add]
      simp only [reduceCtorEq, if_false]
      abel
  | held =>
      refine .held w₁ (hb.accepted hqueue hmetrics ?_)
      simp only [if_true, List.filterMap_append, ← Multiset.coe_add, ← add_assoc]
      rfl

/-- Submitting a marker settles one that was in hand, with the events of the submission. -/
theorem submitMarker (hb : Balanced { b with hand := (h, o) :: b.hand } w) (id : Nat)
    (t : Thread) :
    Balanced
      { b with
        taken := b.taken ++ w.acceptedMarkers id t h o
        log := b.log ++ w.submissionEvents id t h o }
      (w.submitMarker (submitTo id) t h o) := by
  have hhands := hb.handMarker id t
  have hverdict := handOver_verdict id w t (Entry.fenceMarker (w.handleAt h).ledger)
    (w.handleAt h).ackBeforeSync (.fence h o)
  -- markers taken, events and the host behind are all read off the hand-over
  unfold submissionEvents acceptedMarkers Host.submitMarker
  dsimp only
  rw [submitTo_eq_handOver, ← hverdict]
  change HandsOver b t h o (w.handOver ..) at hhands
  unfold Host.handMarker
  dsimp only
  generalize w.handOver id t (Entry.fenceMarker (w.handleAt h).ledger)
    (w.handleAt h).ackBeforeSync (.fence h o) = r at hhands ⊢
  cases hhands with
  | refused cause w₁ hb =>
      rw [List.append_nil]
      exact hb.logged (fun _ => rfl) rfl
  | completed report w₁ hb =>
      have hrunning : Balanced
          { b with
            taken := b.taken ++ [(h, o)]
            running := (Callback.fence h o).marker?.toList ++ b.running } w₁ := hb
      exact complete (b := { b with taken := b.taken ++ [(h, o)] }) report hrunning
  | held w₁ hb =>
      rw [List.append_nil]
      exact hb

/-- A whole fence call is entered with the call, the marker that was taken and the events. -/
theorem fenceWith (hb : Balanced b w) (hknown : w.handles.holds h = true) (id : Nat)
    (t : Thread) :
    Balanced
      { b with
        answered := b.answered + if (w.fenceWith (submitTo id) t h).1.isOk then 1 else 0
        taken := b.taken ++ w.takenMarkers id t h
        log := b.log ++ w.fenceEvents id t h }
      (w.fenceWith (submitTo id) t h).2 := by
  unfold takenMarkers fenceEvents Host.fenceWith
  cases hdecide : w.decideFence h with
  | mk answer w₁ =>
      cases answer with
      | error e =>
          simp only [List.append_nil]
          exact hb.undecided hdecide
      | ok d =>
          have hdecided := hb.decide hknown hdecide
          obtain ⟨path, o⟩ := d
          cases path with
          | first | retry =>
              have hopened := hdecided.logged (e := .opened h o) (fun _ => rfl) rfl
              have hsubmitted := submitMarker
                (b := { b with answered := b.answered + 1, log := b.log ++ [.opened h o] })
                hopened id t
              simp only [List.append_assoc, List.singleton_append] at hsubmitted
              exact hsubmitted
          | inFlight | alreadyPersisted =>
              simp only [appends, Bool.false_eq_true, if_false, List.append_nil]
              exact hdecided.logged (fun _ => rfl) rfl

/-- Other entries are of no concern. -/
theorem submitReport (hb : Balanced b w) (id : Nat) (t : Thread) (entry : Bytes) (ack : Bool)
    (label : String) : Balanced b (submitTo id w t entry ack (.report label)).2 := by
  have hqueue := handOver_requeues id w t entry ack (.report label)
  have hmetrics := handOver_metrics id w t entry ack (.report label)
  rw [submitTo_eq_handOver]
  generalize w.handOver id t entry ack (.report label) = r at hqueue hmetrics ⊢
  obtain ⟨v, w₁⟩ := r
  cases v with
  | refused cause => exact hb.requeued hqueue hmetrics rfl
  | completed report =>
      exact (hb.requeued hqueue hmetrics rfl).frame (keepsMarks_of_eq rfl (Nat.le_refl _))
        (counts_of_metrics rfl) rfl
  | held => exact hb.requeued hqueue hmetrics (by simp [Callback.marker?])

/-! ### Operations -/

/-- Whatever ends held callbacks keeps the books, with the ended ones entered as being run
first. -/
theorem keptByEnds (b : FenceBooks) : KeptByEnds fun log hand w =>
    Balanced { b with running := hand ++ b.running, log := b.log ++ log } w where
  take hb hheld hqueue hmetrics := by
    have htaken := hb.taken hheld hqueue hmetrics
    rwa [← List.append_assoc] at htaken
  complete {log hand w callback} report hb := by
    rw [List.append_assoc] at hb
    have hrun := complete (b := { b with running := hand ++ b.running, log := b.log ++ log })
      report hb
    rwa [List.append_assoc] at hrun
  abandon {log hand w callback} hb := by
    rw [List.append_assoc] at hb
    have hdropped := abandon (b := { b with running := hand ++ b.running, log := b.log ++ log }) hb
    rwa [List.append_assoc] at hdropped

/-- A reader refuses to fence. -/
theorem fence (hb : Balanced b w) (handle : HandleRef) (id : Nat) (t : Thread) :
    Balanced (b.operated w (.fence handle (.journal id) t))
      (w.perform (.fence handle (.journal id) t)).2 := by
  have hquiet : Balanced { b with
      answered := b.answered + 0, taken := b.taken ++ [], log := b.log ++ [] } w := by
    simpa using hb
  have hperform : w.perform (.fence handle (.journal id) t) =
      w.whenHeld (w.knowsHandle handle && w.knowsPath (.journal id))
        (answer .handle .object (w.fence (.journal id) t handle)) := rfl
  unfold FenceBooks.operated fenceAnswers
  dsimp only
  rw [hperform]
  unfold whenHeld
  by_cases hheld : (w.knowsHandle handle && w.knowsPath (.journal id)) = true
  · rw [if_pos hheld, answer_host, answer_isOk]
    cases handle with
    | reader r => exact hquiet
    | writable h =>
        have hfenced := hb.fenceWith (Bool.and_eq_true_iff.mp hheld).1 id t
        simp only [markersTaken, markerEvents, if_pos hheld]
        exact hfenced
  · rw [if_neg hheld]
    cases handle with
    | reader r => exact hquiet
    | writable h =>
        simp only [markersTaken, markerEvents, if_neg hheld]
        exact hquiet

/-- Operations that are not about fencing change nothing that the books describe. -/
theorem calm {op : Op} (hb : Balanced b w) (hop : op.concernsFencing = false) :
    Balanced b (w.perform op).2 := by
  have hcalm := perform_calm w hop
  exact hb.frame hcalm.keepsMarks (perform_works w hop).counts_none
    (heldMarkers_of_journals hcalm.journals)

theorem ended {op : Op} (hb : Balanced b w) (hop : op.endsAppends = true) :
    Balanced { b with log := b.log ++ w.markerEvents op } (w.perform op).2 := by
  have hstart : Balanced { b with running := [] ++ b.running, log := b.log ++ [] } w := by
    simpa using hb
  exact (keptByEnds b).perform hstart hop

/-- Every operation that only goes to journals that the host has keeps the books. -/
theorem perform {op : Op} (hb : Balanced b w) (hop : op.toJournals = true) :
    Balanced (b.operated w op) (w.perform op).2 := by
  cases op with
  | fence handle path t =>
      cases path with
      | journal id => exact hb.fence handle id t
      | _ => cases hop
  | completeNext | completeAll | dropNext | releaseJournal =>
      rw [b.operated_of_not_fence w rfl]
      exact hb.ended rfl
  | log path t entry ack label =>
      rw [b.operated_of_quiet w rfl rfl]
      cases path with
      | journal id =>
          refine whenHeld_host (P := Balanced b) hb ?_
          rw [answer_host]
          exact hb.submitReport id t entry ack label
      | _ => cases hop
  | createMemoryJournal | createScriptedJournal | shutDown | setMode | queueFailure =>
      rw [b.operated_of_quiet w rfl rfl]
      exact hb.requeued (setUp_requeues w rfl 0) rfl rfl
  | createOutcome result =>
      rw [b.operated_of_quiet w rfl rfl]
      refine hb.frame (keepsMarks_of_eq rfl ?_) (counts_of_metrics rfl) rfl
      exact Nat.le_of_lt (Nat.lt_of_lt_of_eq (Nat.lt_succ_self _) (Arena.next_add _ _).symm)
  | _ =>
      rw [b.operated_of_quiet w rfl rfl]
      exact hb.calm rfl

end Host.Balanced

end FencedLedger
