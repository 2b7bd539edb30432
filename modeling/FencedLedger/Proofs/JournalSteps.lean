import FencedLedger.Host.Fencing

/-!
# What the steps of journals keep

A journal takes an entry, runs callbacks and lets go of callbacks, one at a time, and a
fence call decides, submits its marker and answers for a refusal. A relation between
hosts that holds of each of these steps, and of one after the other, holds of whole
submissions and of everything that ends the appends of a queue.
-/

namespace FencedLedger

namespace Host

variable {R : Host → Host → Prop}

/-- A relation between a host and the host behind it that holds when a journal runs the
callback held longest or lets go of it. -/
structure HoldsOfReleases (R : Host → Host → Prop) : Prop where
  refl : ∀ w, R w w
  trans : ∀ {w w' w''}, R w w' → R w' w'' → R w w''
  completeNext : ∀ w id code, R w (w.completeNext id code).2
  dropNext : ∀ w id, R w (w.dropNext id).2

/-- Callbacks are completed one at a time, so what holds of one completion holds of many. -/
theorem HoldsOfReleases.completeUpTo (hR : HoldsOfReleases R) (id : Nat) (code : ReturnCode)
    (bound : Nat) (w : Host) : R w (w.completeUpTo id code bound).2 := by
  induction bound generalizing w with
  | zero => exact hR.refl w
  | succ bound ih =>
      have hnext := hR.completeNext w id code
      unfold Host.completeUpTo
      split
      next heq => rwa [heq] at hnext
      next w₁ heq =>
        rw [heq] at hnext
        exact hR.trans hnext (ih w₁)

/-- A relation that holds of submissions and of the steps of fence calls. -/
structure HoldsOfSubmissions (R : Host → Host → Prop) : Prop where
  refl : ∀ w, R w w
  trans : ∀ {w w' w''}, R w w' → R w' w'' → R w w''
  submitTo : ∀ id w t entry ack callback, R w (submitTo id w t entry ack callback).2
  complete : ∀ w callback report, R w (w.complete callback report)
  decide : ∀ w h, R w (w.decideFence h).2
  refuse : ∀ w t o cause, R w (w.refuseMarker t o cause)
  refenced : ∀ w answer, R w (w.emit (.refenced answer))

namespace HoldsOfSubmissions

variable (hR : HoldsOfSubmissions R)

include hR

section Submit

variable {s : Submit} (hs : ∀ w t entry ack callback, R w (s w t entry ack callback).2)

include hs

/-- The marker is handed over, and a refusal is answered for. -/
theorem submitMarker (w : Host) (t : Thread) (h o : Nat) : R w (w.submitMarker s t h o) := by
  have hsubmit := hs w t (Entry.fenceMarker (w.handleAt h).ledger) (w.handleAt h).ackBeforeSync
    (.fence h o)
  unfold Host.submitMarker
  dsimp only
  split
  next htaken => rwa [htaken] at hsubmit
  next cause w₁ hrefused =>
    rw [hrefused] at hsubmit
    exact hR.trans hsubmit (hR.refuse w₁ t o cause)

/-- What holds of a decision and of a submission holds of the call that is made of both. -/
theorem fenceThrough (w : Host) (t : Thread) (handle : HandleRef) :
    R w (w.fenceThrough s t handle).2 := by
  cases handle with
  | reader r => exact hR.refl w
  | writable h =>
      have hdecide := hR.decide w h
      change R w (w.fenceWith s t h).2
      unfold fenceWith
      split
      next hfailed => rwa [hfailed] at hdecide
      next decision w₁ hdecided =>
        rw [hdecided] at hdecide
        refine hR.trans hdecide ?_
        dsimp only
        split
        next => exact hR.submitMarker hs w₁ t h decision.outcome
        next => exact hR.refl w₁

end Submit

/-- By induction on the path: a journal that fences on the way does so in the same steps. -/
theorem submit (path : JournalPath) (w : Host) (t : Thread) (entry : Bytes) (ack : Bool)
    (callback : Callback) : R w (submit path w t entry ack callback).2 := by
  induction path generalizing w t entry ack callback with
  | journal id => exact hR.submitTo id w t entry ack callback
  | reportThenRefuse code cause => exact hR.complete w callback _
  | refencing handle inner ih =>
      -- the handle on the way is fenced before the entry is handed on
      have hinner := hR.fenceThrough ih w t handle
      exact hR.trans (hR.trans hinner (hR.refenced _ _)) (ih _ t entry ack callback)

end HoldsOfSubmissions

/-! ### Relations that do not look at journals -/

/-- A relation that holds of each step of a fold holds of the fold. -/
theorem foldl_holds {α : Type} {f : Host → α → Host} (hrefl : ∀ w, R w w)
    (htrans : ∀ {w w' w''}, R w w' → R w' w'' → R w w'') (hstep : ∀ w x, R w (f w x))
    (xs : List α) (w : Host) : R w (xs.foldl f w) := by
  induction xs generalizing w with
  | nil => exact hrefl w
  | cons x xs ih => exact htrans (hstep w x) (ih _)

/-- A relation that holds when a journal runs or lets go of the callbacks that it holds,
whatever else becomes of journals. -/
structure HoldsOfTakings (R : Host → Host → Prop) : Prop where
  refl : ∀ w, R w w
  trans : ∀ {w w' w''}, R w w' → R w' w'' → R w w''
  journals : ∀ (w : Host) journals, R w { w with journals }
  complete : ∀ w callback report, R w (w.complete callback report)
  abandon : ∀ w callback, R w (w.abandon callback)

namespace HoldsOfTakings

variable (hR : HoldsOfTakings R)

include hR

theorem takeHeld (w : Host) (id : Nat) : R w (w.takeHeld id).2 := by
  unfold Host.takeHeld
  split
  next => exact hR.refl w
  next => exact hR.journals w _

/-- The callback is taken off the queue, and then run. -/
theorem completeNext (w : Host) (id : Nat) (code : ReturnCode) :
    R w (w.completeNext id code).2 := by
  have htaken := hR.takeHeld w id
  unfold Host.completeNext
  split
  next heq => rwa [heq] at htaken
  next held w₁ heq =>
    rw [heq] at htaken
    exact hR.trans htaken (hR.complete w₁ held.callback _)

/-- The callback is taken off the queue, and then let go of. -/
theorem dropNext (w : Host) (id : Nat) : R w (w.dropNext id).2 := by
  have htaken := hR.takeHeld w id
  unfold Host.dropNext
  split
  next heq => rwa [heq] at htaken
  next held w₁ heq =>
    rw [heq] at htaken
    exact hR.trans htaken (hR.abandon w₁ held.callback)

theorem releaseJournal (w : Host) (id : Nat) : R w (w.releaseJournal id) :=
  hR.trans (hR.journals w _)
    (foldl_holds hR.refl hR.trans (fun w held => hR.abandon w held.callback) (w.heldBy id) _)

theorem releases : HoldsOfReleases R where
  refl := hR.refl
  trans := hR.trans
  completeNext := hR.completeNext
  dropNext := hR.dropNext

end HoldsOfTakings

/-- A relation that holds when appends end, whatever becomes of journals and of the flags
that submissions heed. -/
structure HoldsOfEnds (R : Host → Host → Prop) : Prop extends HoldsOfTakings R where
  interrupts : ∀ (w : Host) interrupts, R w { w with interrupts }

/-- A journal takes the entry, runs the callback at once, or refuses. -/
theorem HoldsOfEnds.submitTo (hR : HoldsOfEnds R) (id : Nat) (w : Host) (t : Thread)
    (entry : Bytes) (ack : Bool) (callback : Callback) :
    R w (submitTo id w t entry ack callback).2 := by
  -- the journal takes note of the entry before it reports
  have hnoted : ∀ journals interrupts, R w { w with journals, interrupts } :=
    fun journals interrupts => hR.trans (hR.journals w journals) (hR.interrupts _ interrupts)
  unfold Host.submitTo
  split
  next => exact hR.refl w
  next =>
    dsimp only
    split
    next => exact hnoted _ _
    next report _ => exact hR.trans (hnoted _ _) (hR.complete _ callback report)
    next => exact hnoted _ _

/-- A relation that also holds of the steps of fence calls. -/
structure HoldsOfFencing (R : Host → Host → Prop) : Prop extends HoldsOfEnds R where
  decide : ∀ w h, R w (w.decideFence h).2
  refuse : ∀ w t o cause, R w (w.refuseMarker t o cause)
  refenced : ∀ w answer, R w (w.emit (.refenced answer))

theorem HoldsOfFencing.submissions (hR : HoldsOfFencing R) : HoldsOfSubmissions R where
  refl := hR.refl
  trans := hR.trans
  submitTo := hR.submitTo
  complete := hR.complete
  decide := hR.decide
  refuse := hR.refuse
  refenced := hR.refenced

/-! ### Relations that do not look at the books -/

/-- A relation that does not look at handles, outcomes and counts, which is all that the
decision on a fence call and the end of a marker's append change besides the store. -/
structure IgnoresBooks (R : Host → Host → Prop) : Prop where
  trans : ∀ {w w' w''}, R w w' → R w' w'' → R w w''
  books : ∀ (w : Host) handles outcomes metrics, R w { w with handles, outcomes, metrics }

namespace IgnoresBooks

variable (hR : IgnoresBooks R)

include hR

theorem refl (w : Host) : R w w := hR.books w w.handles w.outcomes w.metrics

theorem decideAgain (w : Host) (h : Nat) : R w (w.decideAgain h).2 := by
  unfold Host.decideAgain
  split
  next => exact hR.books w w.handles _ _
  next =>
    split
    next => exact hR.books w w.handles w.outcomes _
    next => exact hR.books w _ _ _

/-- What holds of the request to fence and of putting up an outcome holds of a decision. -/
theorem decideFence (hcall : ∀ w l, R w (w.call .fence (Store.fence l)).2) (w : Host) (h : Nat) :
    R w (w.decideFence h).2 := by
  have hfenced := hcall w (w.handleAt h).ledger
  unfold Host.decideFence
  split
  next heq => rwa [heq] at hfenced
  next w₁ heq =>
    rw [heq] at hfenced
    exact hR.trans hfenced (hR.books w₁ _ _ _)
  next w₁ heq =>
    rw [heq] at hfenced
    exact hR.trans hfenced (hR.decideAgain w₁ h)

/-- The mark is set if the marker is durable, and the count goes with it. -/
theorem noteMarker (w : Host) (h : Nat) (code : ReturnCode) : R w (w.noteMarker h code) := by
  unfold Host.noteMarker markPersisted
  split
  next =>
    split
    next => exact hR.refl w
    next => exact hR.books w _ w.outcomes _
  next => exact hR.books w w.handles w.outcomes _

theorem settle (w : Host) (o : Nat) (r : FenceResult) : R w (w.settle o r) :=
  hR.books w w.handles _ w.metrics

theorem complete (hreport : ∀ w label report, R w (w.emit (.completed label report))) (w : Host)
    (callback : Callback) (report : Completion) : R w (w.complete callback report) := by
  cases callback with
  | fence h o => exact hR.trans (hR.noteMarker w h report.code) (hR.settle _ o _)
  | report label => exact hreport w label report

theorem abandon (w : Host) (callback : Callback) : R w (w.abandon callback) := by
  cases callback with
  | fence h o => exact hR.settle w o _
  | report label => exact hR.refl w

theorem abandonAll (held : List Held) (w : Host) :
    R w (held.foldl (fun w x => w.abandon x.callback) w) :=
  foldl_holds hR.refl hR.trans (fun w x => hR.abandon w x.callback) held w

/-- A relation that looks at nothing but what is given here holds of all that fencing does. -/
theorem holdsOfFencing (hjournals : ∀ (w : Host) journals, R w { w with journals })
    (hinterrupts : ∀ (w : Host) interrupts, R w { w with interrupts })
    (hcall : ∀ w l, R w (w.call .fence (Store.fence l)).2)
    (hreport : ∀ w label report, R w (w.emit (.completed label report)))
    (hrefenced : ∀ w answer, R w (w.emit (.refenced answer))) : HoldsOfFencing R where
  refl := hR.refl
  trans := hR.trans
  journals := hjournals
  interrupts := hinterrupts
  complete := hR.complete hreport
  abandon := hR.abandon
  decide := hR.decideFence hcall
  refuse w t o cause := by
    have hrefused : ∀ w : Host, R w ((w.count (.fenceLogFailures .journal) 1).settle o
        (.error (.journal cause))) := fun w => hR.books w w.handles _ _
    cases cause with
    | interrupted =>
        exact hR.trans (hinterrupts w (w.interrupts.raise t)) (hR.books _ w.handles _ _)
    | _ => exact hrefused w
  refenced := hrefenced

end IgnoresBooks

end Host

end FencedLedger
