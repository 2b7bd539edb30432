import FencedLedger.Proofs.Effects

/-!
# Fence calls taken apart

Threads that fence one handle act between the steps of each other. A decision is
one step. The thread that appends then hands the marker to its journal, learns
whether the journal took it, and answers for a refusal. The journal runs the
callback in two steps, the durable mark and then the outcome, or lets go of it.
Any of these may come first once the callback was handed over; a journal that
refused a marker does not start to run its callback.

That a decision is one step is an assumption. It reads the durable mark first and
the latest outcome after it, and the lock that keeps other decisions away does not
keep completions away. If an append succeeds between the two reads, the decision
has found the mark unset and then the outcome done, and appends a second marker.
No run of the steps below does that.
-/

namespace FencedLedger

/-- How far the thread that made a call got. -/
inductive FramePhase where
  | decided
  | submitting
  | accepted
  | refused (cause : JournalError)
  | answered

/-- How far the callback of a call got. -/
inductive CallbackPhase where
  | kept
  | handed
  | noted (code : ReturnCode)
  | ran (code : ReturnCode)
  | dropped

/-- A fence call that was decided on. -/
structure FenceCall where
  path : FencePath
  outcome : Nat
  /-- Whether an append was due when the call was decided on. -/
  due : Bool
  /-- How often the call handed a new marker to a journal. -/
  submissions : Nat
  frame : FramePhase
  callback : CallbackPhase

namespace FenceCall

/-- A call that was just decided on. One that appends nothing is answered. -/
def decided (d : Host.FenceDecision) (due : Bool) : FenceCall :=
  ⟨d.path, d.outcome, due, 0, if Host.appends d.path then .decided else .answered, .kept⟩

/-- Whether the append of the call set the durable mark of the handle. -/
def marked (c : FenceCall) : Bool :=
  match c.callback with
  | .noted code | .ran code => code.isOk
  | _ => false

/-- Whether the call appends, and the outcome of the append is open. -/
def outstanding (w : Host) (c : FenceCall) : Bool :=
  Host.appends c.path && !(w.outcomeAt c.outcome).isDone

/-- A step of a call, of its thread or of its journal. -/
inductive Step (h : Nat) (w : Host) (c : FenceCall) : Host → FenceCall → Prop where
  | submit (hframe : c.frame = .decided) :
      Step h w c w
        { c with submissions := c.submissions + 1, frame := .submitting, callback := .handed }
  | note (code : ReturnCode) (hcallback : c.callback = .handed)
      (hframe : c.frame = .submitting ∨ c.frame = .accepted) :
      Step h w c (w.noteMarker h code) { c with callback := .noted code }
  | settle (code : ReturnCode) (hcallback : c.callback = .noted code) :
      Step h w c (w.settle c.outcome (.ok code.isOk)) { c with callback := .ran code }
  /-- The thread lets go of the outcome only after the journal answered. -/
  | drop (hcallback : c.callback = .handed) (hframe : c.frame ≠ .accepted) :
      Step h w c w { c with callback := .dropped }
  | abandon (hcallback : c.callback = .handed) (hframe : c.frame = .accepted) :
      Step h w c (w.settle c.outcome (.error .abandoned)) { c with callback := .dropped }
  | accept (hframe : c.frame = .submitting) (hcallback : c.callback ≠ .dropped) :
      Step h w c w { c with frame := .accepted }
  | acceptDropped (hframe : c.frame = .submitting) (hcallback : c.callback = .dropped) :
      Step h w c (w.settle c.outcome (.error .abandoned)) { c with frame := .accepted }
  | refuse (cause : JournalError) (hframe : c.frame = .submitting) :
      Step h w c w { c with frame := .refused cause }
  | reject (t : Thread) (cause : JournalError) (hframe : c.frame = .refused cause) :
      Step h w c (w.refuseMarker t c.outcome cause) { c with frame := .answered }

end FenceCall

/-- A host and the calls that fence one of its handles, in the order in which
they were decided on. -/
structure Fencing where
  host : Host
  calls : List FenceCall

namespace Fencing

/-- No append of the handle has set its durable mark, and none has an open
outcome. -/
def appendDue (s : Fencing) : Bool :=
  s.calls.all fun c => !c.marked && !c.outstanding s.host

/-- What others may do meanwhile: fence other handles, settle outcomes, use
journals, and every operation that does not create the ledger of the handle
anew. -/
inductive Elsewhere (h : Nat) (w : Host) : Host → Prop where
  | operate (op : Op) (hop : op.concernsFencing = false)
      (hkept : ¬ w.recreates op (w.handleAt h).ledger) : Elsewhere h w (w.perform op).2
  | decide {h' : Nat} (hother : h' ≠ h) : Elsewhere h w (w.decideFence h').2
  | note {h' : Nat} (hother : h' ≠ h) (code : ReturnCode) : Elsewhere h w (w.noteMarker h' code)
  | settle (o : Nat) (r : FenceResult) : Elsewhere h w (w.settle o r)
  | createOutcome (o : Outcome) : Elsewhere h w (w.addOutcome o).2
  | disregard {w' : Host} (hstore : w'.store = w.store) (hhandles : w'.handles = w.handles)
      (houtcomes : w'.outcomes = w.outcomes) : Elsewhere h w w'

inductive Step (h : Nat) (s : Fencing) : Fencing → Prop where
  | decide {d : Host.FenceDecision} {w' : Host} (hdecide : s.host.decideFence h = (.ok d, w')) :
      Step h s ⟨w', s.calls ++ [.decided d s.appendDue]⟩
  | fail {e : HandleError} {w' : Host} (hdecide : s.host.decideFence h = (.error e, w')) :
      Step h s ⟨w', s.calls⟩
  | call {i : Nat} {c c' : FenceCall} {w' : Host} (hcall : s.calls[i]? = some c)
      (hstep : c.Step h s.host w' c') : Step h s ⟨w', s.calls.set i c'⟩
  | elsewhere {w' : Host} (hother : Elsewhere h s.host w') : Step h s ⟨w', s.calls⟩

/-- States that a host reaches from when it made the handle. -/
inductive Reachable (h : Nat) : Fencing → Prop where
  | start {w : Host} {l : LedgerId} {key : MasterKey} {ack : Bool}
      (hmade : w.handles.get? h = some (.create l key ack)) : Reachable h ⟨w, []⟩
  | step {s s' : Fencing} (hreach : Reachable h s) (hstep : Step h s s') : Reachable h s'

end Fencing

theorem Outcome.isDone_settle (o : Outcome) (r : FenceResult) : (o.settle r).isDone = true := by
  unfold settle
  split
  next => rfl
  next hresult => simp [isDone, hresult]

namespace Host

variable {w w' : Host} {h : Nat} {l : LedgerId} {x : Handle}

/-! ### What lasts -/

/-- A ledger that is gone stays gone, a fenced one stays fenced or goes, and an
outcome that is settled stays settled. -/
structure Lasts (l : LedgerId) (w w' : Host) : Prop where
  gone : w.store.keyOf? l = none → w'.store.keyOf? l = none
  fenced : w.store.holdsFenced l = true →
    w'.store.keyOf? l = none ∨ w'.store.holdsFenced l = true
  next : w.outcomes.next ≤ w'.outcomes.next
  done : ∀ o, (w.outcomeAt o).isDone = true → (w'.outcomeAt o).isDone = true

theorem Lasts.trans {w'' : Host} (h : Lasts l w w') (h' : Lasts l w' w'') : Lasts l w w'' where
  gone hgone := h'.gone (h.gone hgone)
  fenced hfenced := by
    rcases h.fenced hfenced with hgone | hstays
    · exact Or.inl (h'.gone hgone)
    · exact h'.fenced hstays
  next := Nat.le_trans h.next h'.next
  done o hdone := h'.done o (h.done o hdone)

theorem lasts_of_steady (hsteady : w.store.Steady w'.store)
    (hnext : w.outcomes.next ≤ w'.outcomes.next)
    (hdone : ∀ o, (w.outcomeAt o).isDone = true → (w'.outcomeAt o).isDone = true) :
    Lasts l w w' where
  gone hgone := (hsteady.keys l).trans hgone
  fenced hfenced := Or.inr (hsteady.fenced l hfenced)
  next := hnext
  done := hdone

theorem lasts_of_outcomes (hsteady : w.store.Steady w'.store)
    (houtcomes : w'.outcomes = w.outcomes) : Lasts l w w' := by
  apply lasts_of_steady hsteady
  · exact Nat.le_of_eq (congrArg Arena.next houtcomes.symm)
  · intro o hdone
    rwa [outcomeAt, houtcomes]

/-- Only outcomes that were put up are settled. -/
theorem isDone_of_absent {o : Nat} (ho : w.outcomes.get? o = none) :
    (w.outcomeAt o).isDone = false := by
  rw [outcomeAt, ho]
  rfl

/-- A new outcome takes no place of an old one. -/
theorem lasts_of_added {o : Outcome} (hsteady : w.store.Steady w'.store)
    (houtcomes : w'.outcomes = w.outcomes.add o) : Lasts l w w' := by
  apply lasts_of_steady hsteady
  · simp [houtcomes]
  · intro o' hdone
    rw [outcomeAt_add houtcomes]
    split
    next hnext =>
      rw [isDone_of_absent (w.outcomes.get?_of_next_le (Nat.le_of_eq hnext.symm))] at hdone
      cases hdone
    next => exact hdone

/-- Settling an outcome settles no other, and none that is settled already. -/
theorem settle_lasts (w : Host) (o : Nat) (r : FenceResult) : Lasts l w (w.settle o r) := by
  apply lasts_of_steady (settle_fences w o r).store.toSteady
  · exact Nat.le_of_eq (w.outcomes.next_modify o _).symm
  · intro o' hdone
    rw [outcomeAt_settle]
    split
    next =>
      cases hslot : w.outcomes.get? o' with
      | none =>
          rw [isDone_of_absent hslot] at hdone
          cases hdone
      | some outcome =>
          exact outcome.isDone_settle r
    next => exact hdone

theorem noteMarker_lasts (w : Host) (h : Nat) (code : ReturnCode) :
    Lasts l w (w.noteMarker h code) :=
  lasts_of_outcomes (noteMarker_fences w h code).store.toSteady (noteMarker_same w h code).1

theorem refuseMarker_lasts (w : Host) (t : Thread) (o : Nat) (cause : JournalError) :
    Lasts l w (w.refuseMarker t o cause) := by
  unfold refuseMarker
  split <;> refine Lasts.trans ?_ (settle_lasts _ o _) <;>
    exact lasts_of_outcomes (.refl w.store) rfl

/-- Whatever is decided, ledgers stay, bits stay set and outcomes are kept. -/
theorem Decides.lasts {r : Except HandleError FenceDecision × Host} (hdecides : Decides h w r) :
    Lasts l w r.2 := by
  cases hdecides with
  | failed e w' idle => exact lasts_of_outcomes idle.fences.store.toSteady idle.outcomes
  | first w' sets clear puts => exact lasts_of_added sets.store.toSteady puts.outcomes
  | retry w' sets fenced unmarked idle puts =>
      exact lasts_of_added sets.store.toSteady puts.outcomes
  | inFlight o w' sets fenced unmarked underWay handles outcomes =>
      exact lasts_of_outcomes sets.store.toSteady outcomes
  | alreadyPersisted w' sets fenced marked handles outcomes =>
      exact lasts_of_added sets.store.toSteady outcomes

/-- The same goes for every operation that neither fences nor creates the ledger anew. -/
theorem perform_lasts {op : Op} (hop : op.concernsFencing = false) (hkept : ¬ w.recreates op l) :
    Lasts l w (w.perform op).2 := by
  have hcalm := perform_calm w hop
  have hheld : (w.perform op).2.store.keyOf? l = none ∨
      (w.perform op).2.store.ledgers.contains l = true := by
    rw [Store.contains_eq_isSome_keyOf?]
    cases (w.perform op).2.store.keyOf? l <;> simp
  refine ⟨?_, ?_, ?_, ?_⟩
  · -- a ledger that came back would have been created anew
    intro hgone
    apply hheld.resolve_right
    intro hnew
    exact hkept ⟨hnew, Or.inl (Store.contains_eq_false_iff.mpr hgone)⟩
  · intro hfenced
    exact hheld.imp_right fun hheld => fenced_of_not_recreates hheld hkept fun _ => hfenced
  · exact Nat.le_of_eq (congrArg Arena.next hcalm.outcomes.symm)
  · intro o hdone
    rwa [outcomeAt, hcalm.outcomes]

/-! ### What the steps do -/

theorem refuseMarker_handles (w : Host) (t : Thread) (o : Nat) (cause : JournalError) :
    (w.refuseMarker t o cause).handles = w.handles := by
  unfold refuseMarker
  split <;> rfl

/-- A decision about one handle leaves the others as they are. -/
theorem Decides.other {h' : Nat} {r : Except HandleError FenceDecision × Host}
    (hdecides : Decides h' w r) (hother : h' ≠ h) :
    r.2.handles.get? h = w.handles.get? h := by
  cases hdecides with
  | failed e w' idle => rw [idle.handles]
  | first w' sets clear puts => rw [puts.handles, Arena.get?_modify, if_neg hother]
  | retry w' sets fenced unmarked idle puts =>
      rw [puts.handles, Arena.get?_modify, if_neg hother]
  | inFlight o w' sets fenced unmarked underWay handles outcomes => rw [handles]
  | alreadyPersisted w' sets fenced marked handles outcomes => rw [handles]

end Host

namespace Fencing

/-- Whatever happens elsewhere leaves the handle as it is. -/
theorem Elsewhere.spec {h : Nat} {w w' : Host} {x : Handle} (hother : Elsewhere h w w')
    (hx : w.handles.get? h = some x) :
    w'.handles.get? h = some x ∧ Host.Lasts x.ledger w w' := by
  cases hother with
  | operate op hop hkept =>
      rw [Host.handleAt_of_get? hx] at hkept
      exact ⟨(Host.perform_calm w hop).handles.kept hx, Host.perform_lasts hop hkept⟩
  | @decide h' hne =>
      have hdecides := Host.decideFence_decides w h'
      exact ⟨(hdecides.other hne).trans hx, hdecides.lasts⟩
  | note hne code =>
      refine ⟨?_, Host.noteMarker_lasts w _ code⟩
      rwa [Host.noteMarker_get?, if_neg hne]
  | settle o r => exact ⟨hx, Host.settle_lasts w o r⟩
  | createOutcome o => exact ⟨hx, Host.lasts_of_added (.refl w.store) rfl⟩
  | disregard hstore hhandles houtcomes =>
      exact ⟨by rwa [hhandles], Host.lasts_of_outcomes (hstore ▸ .refl w.store) houtcomes⟩

end Fencing

namespace FenceCall

/-- A step of a call, as the host and the other calls see it. -/
structure Moves (h : Nat) (x : Handle) (w : Host) (c : FenceCall) (w' : Host)
    (c' : FenceCall) : Prop where
  path : c'.path = c.path
  outcome : c'.outcome = c.outcome
  handle : w'.handles.get? h =
    some { x with persisted := x.persisted || c'.marked && !c.marked }
  stays : c.marked = true → c'.marked = true
  lasts : Host.Lasts x.ledger w w'

variable {h : Nat} {w w' : Host} {x : Handle} {c c' : FenceCall}

theorem moves_of_marked (hpath : c'.path = c.path) (houtcome : c'.outcome = c.outcome)
    (hmarked : c'.marked = c.marked) (hx : w'.handles.get? h = some x)
    (hlasts : Host.Lasts x.ledger w w') : Moves h x w c w' c' where
  path := hpath
  outcome := houtcome
  handle := by simp [hx, hmarked]
  stays hc := hmarked.trans hc
  lasts := hlasts

/-- A call that is due to append does so once, and one that is not never does. -/
structure Proper (c : FenceCall) : Prop where
  kept : c.frame = .decided → c.callback = .kept
  due : Host.appends c.path = c.due
  idle : c.due = false → c.frame = .answered ∧ c.callback = .kept ∧ c.submissions = 0
  submitted : c.due = true →
    c.frame = .decided ∧ c.submissions = 0 ∨ c.frame ≠ .decided ∧ c.submissions = 1

/-- A call that was just decided on has handed over nothing yet. -/
theorem decided_proper {d : Host.FenceDecision} {due : Bool}
    (hdue : Host.appends d.path = due) : (decided d due).Proper where
  kept _ := rfl
  due := hdue
  idle hidle := by
    refine ⟨?_, rfl, rfl⟩
    simp [decided, hdue.trans hidle]
  submitted happends := by
    refine Or.inl ⟨?_, rfl⟩
    simp [decided, hdue.trans happends]

theorem Proper.submitted_once (hc : c.Proper) (hdue : c.due = true)
    (hframe : c.frame ≠ .decided) : c.submissions = 1 := by
  rcases hc.submitted hdue with ⟨hdecided, -⟩ | ⟨-, honce⟩
  · exact absurd hdecided hframe
  · exact honce

/-- A call that has handed over its marker stays proper. -/
theorem Proper.moved (hc : c.Proper) (hdue : c.due = true) (hpath : c'.path = c.path)
    (hsame : c'.due = c.due) (hframe : c'.frame ≠ .decided) (honce : c'.submissions = 1) :
    c'.Proper where
  kept hdecided := absurd hdecided hframe
  due := by rw [hpath, hc.due, hsame]
  idle hidle := by
    rw [hsame, hdue] at hidle
    cases hidle
  submitted _ := Or.inr ⟨hframe, honce⟩

/-- What a call has done and has yet to do fit together at each of its steps. -/
theorem Step.proper (hstep : c.Step h w w' c') (hc : c.Proper) : c'.Proper := by
  have hdue : c.due = true := by
    cases hdue : c.due with
    | true => rfl
    | false =>
        -- a call that is answered at once takes no step
        obtain ⟨hframe, hcallback, -⟩ := hc.idle hdue
        cases hstep <;> simp_all
  have hrun : c.callback ≠ .kept → c.frame ≠ .decided := fun hkept hframe => hkept (hc.kept hframe)
  cases hstep with
  | submit hframe =>
      have hnone : c.submissions = 0 := by
        rcases hc.submitted hdue with ⟨-, hnone⟩ | ⟨hlater, -⟩
        · exact hnone
        · exact absurd hframe hlater
      exact hc.moved hdue rfl rfl nofun (congrArg (· + 1) hnone)
  | note code hcallback | settle code hcallback | drop hcallback | abandon hcallback =>
      have hframe : c.frame ≠ .decided := hrun (by simp [hcallback])
      exact hc.moved hdue rfl rfl hframe (hc.submitted_once hdue hframe)
  | accept hframe | acceptDropped hframe | refuse _ hframe | reject _ _ hframe =>
      exact hc.moved hdue rfl rfl nofun (hc.submitted_once hdue (by simp [hframe]))

/-- What a step of a call does to the handle and to the outcome. -/
theorem Step.moves (hstep : c.Step h w w' c') (hc : c.Proper) (hx : w.handles.get? h = some x) :
    Moves h x w c w' c' := by
  -- most steps leave the store as it is, so the ledger lasts
  have hsame : Host.Lasts x.ledger w w := Host.lasts_of_outcomes (.refl w.store) rfl
  cases hstep with
  | submit hframe =>
      refine moves_of_marked rfl rfl ?_ hx hsame
      simp [marked, hc.kept hframe]
  | note code hcallback hframe =>
      -- no other step marks the handle, and this one does if the append succeeded
      refine ⟨rfl, rfl, ?_, ?_, Host.noteMarker_lasts w h code⟩
      · rw [Host.noteMarker_get?, if_pos rfl, hx]
        simp [marked, hcallback]
      · simp [marked, hcallback]
  | settle code hcallback =>
      refine moves_of_marked rfl rfl ?_ hx (Host.settle_lasts w _ _)
      simp [marked, hcallback]
  | drop hcallback hframe =>
      refine moves_of_marked rfl rfl ?_ hx hsame
      simp [marked, hcallback]
  | abandon hcallback hframe =>
      refine moves_of_marked rfl rfl ?_ hx (Host.settle_lasts w _ _)
      simp [marked, hcallback]
  | accept hframe hcallback => exact moves_of_marked rfl rfl rfl hx hsame
  | acceptDropped hframe hcallback =>
      exact moves_of_marked rfl rfl rfl hx (Host.settle_lasts w _ _)
  | refuse cause hframe => exact moves_of_marked rfl rfl rfl hx hsame
  | reject t cause hframe =>
      refine moves_of_marked rfl rfl rfl ?_ (Host.refuseMarker_lasts w t _ cause)
      rwa [Host.refuseMarker_handles]

end FenceCall

end FencedLedger
