import FencedLedger.Proofs.FenceAppends
import FencedLedger.Proofs.HeldCallbacks

/-!
# Whole calls are runs of their steps

The operations of a host make a fence call as a whole, and run or let go of a
callback as a whole. Each of them is a run of the steps into which fence calls
are taken apart, along every path to a journal, also one that fences on the way.
So nothing that a host does is left out of those runs, and a call that is made as
a whole is among the calls of the run, with the one marker that it hands over if
an append is due.
-/

namespace FencedLedger

namespace Fencing

variable {h : Nat} {w : Host} {calls calls' calls'' : List FenceCall}

/-- The calls so far are as they were, but for the one with the given number. -/
def KeepsCalls (i : Option Nat) (calls calls' : List FenceCall) : Prop :=
  ∀ k c, i ≠ some k → calls[k]? = some c → calls'[k]? = some c

theorem KeepsCalls.refl (i : Option Nat) (calls : List FenceCall) : KeepsCalls i calls calls :=
  fun _ _ _ hc => hc

theorem KeepsCalls.trans {i : Option Nat} (h : KeepsCalls i calls calls')
    (h' : KeepsCalls i calls' calls'') : KeepsCalls i calls calls'' :=
  fun k c hk hc => h' k c hk (h k c hk hc)

theorem KeepsCalls.any (h : KeepsCalls none calls calls') (i : Option Nat) :
    KeepsCalls i calls calls' :=
  fun k c _ hc => h k c nofun hc

theorem keepsCalls_set (calls : List FenceCall) (i : Nat) (c : FenceCall) :
    KeepsCalls (some i) calls (calls.set i c) := by
  intro k c' hk hc'
  rw [List.getElem?_set_ne fun heq => hk (congrArg some heq)]
  exact hc'

theorem keepsCalls_concat (calls : List FenceCall) (c : FenceCall) :
    KeepsCalls none calls (calls ++ [c]) := by
  intro k c' _ hc'
  rw [List.getElem?_append_left]
  · exact hc'
  · exact (List.getElem?_eq_some_iff.mp hc').1

/-- A call that was appended after the others is none of them. -/
theorem KeepsCalls.of_concat {c : FenceCall}
    (h : KeepsCalls (some calls.length) (calls ++ [c]) calls') : KeepsCalls none calls calls' := by
  intro k c' _ hc'
  refine h k c' ?_ (keepsCalls_concat calls c k c' nofun hc')
  intro heq
  rw [← Option.some.inj heq, List.getElem?_eq_none (Nat.le_refl _)] at hc'
  cases hc'

/-- Whose callback it is: that of the call with the given number, which is being
submitted and of which only the callback moves on, or of no call of the handle. -/
inductive Submitting (h : Nat) (phase : CallbackPhase → Prop) (calls : List FenceCall) :
    Option (Nat × FenceCall) → Callback → Prop where
  | other {callback : Callback} (hother : ∀ o, callback ≠ .fence h o) :
      Submitting h phase calls none callback
  | own {i : Nat} {began : FenceCall} {now : CallbackPhase}
      (hcall : calls[i]? = some { began with callback := now })
      (hframe : began.frame = .submitting) (hnow : phase now) :
      Submitting h phase calls (some (i, began)) (.fence h began.outcome)

theorem Submitting.keeps {phase : CallbackPhase → Prop} {own : Option (Nat × FenceCall)}
    {callback : Callback} (h' : Submitting h phase calls own callback)
    (hkeeps : KeepsCalls none calls calls') : Submitting h phase calls' own callback := by
  cases h' with
  | other hother => exact .other hother
  | own hcall hframe hnow => exact .own (hkeeps _ _ nofun hcall) hframe hnow

theorem Submitting.notDropped {own : Option (Nat × FenceCall)} {callback : Callback}
    (h' : Submitting h (· = .handed) calls own callback) :
    Submitting h (· ≠ .dropped) calls own callback := by
  cases h' with
  | other hother => exact .other hother
  | own hcall hframe hnow => exact .own hcall hframe (by simp [hnow])

/-! ### Single steps -/

section Steps

variable {w' : Host} {i : Nat} {c : FenceCall}

theorem Reachable.disregard (hreach : Reachable h ⟨w, calls⟩) (hstore : w'.store = w.store)
    (hhandles : w'.handles = w.handles) (houtcomes : w'.outcomes = w.outcomes) :
    Reachable h ⟨w', calls⟩ :=
  hreach.step (.elsewhere (.disregard hstore hhandles houtcomes))

theorem Reachable.settle (hreach : Reachable h ⟨w, calls⟩) (o : Nat) (r : FenceResult) :
    Reachable h ⟨w.settle o r, calls⟩ :=
  hreach.step (.elsewhere (.settle o r))

/-- Running the callback of a call is two steps. -/
theorem Reachable.complete (hreach : Reachable h ⟨w, calls⟩) (hcall : calls[i]? = some c)
    (hcallback : c.callback = .handed) (hframe : c.frame = .submitting ∨ c.frame = .accepted)
    (report : Completion) :
    Reachable h ⟨w.complete (.fence h c.outcome) report,
      calls.set i { c with callback := .ran report.code }⟩ := by
  have hnoted := hreach.step (.call hcall (.note report.code hcallback hframe))
  have hi := (List.getElem?_eq_some_iff.mp hcall).1
  have hrun := hnoted.step (.call (List.getElem?_set_self hi) (.settle report.code rfl))
  rwa [List.set_set] at hrun

/-- Letting go of the callback of a call that its journal took is one step. -/
theorem Reachable.abandon (hreach : Reachable h ⟨w, calls⟩) (hcall : calls[i]? = some c)
    (hcallback : c.callback = .handed) (hframe : c.frame = .accepted) :
    Reachable h ⟨w.abandon (.fence h c.outcome), calls.set i { c with callback := .dropped }⟩ :=
  hreach.step (.call hcall (.abandon hcallback hframe))

/-- Of other handles, refusals concern outcomes only. -/
theorem Reachable.refuseOther (hreach : Reachable h ⟨w, calls⟩) (t : Thread) (o : Nat)
    (cause : JournalError) : Reachable h ⟨w.refuseMarker t o cause, calls⟩ := by
  unfold Host.refuseMarker
  split <;> refine Reachable.settle ?_ o _ <;> exact hreach.disregard rfl rfl rfl

end Steps

/-- A callback that is run while its entry is being submitted is that of the submitting call or
of none. -/
theorem complete_runs {own : Option (Nat × FenceCall)} {callback : Callback}
    (hreach : Reachable h ⟨w, calls⟩)
    (hsubmitting : Submitting h (· = .handed) calls own callback) (report : Completion) :
    ∃ calls', Reachable h ⟨w.complete callback report, calls'⟩ ∧
      KeepsCalls (own.map Prod.fst) calls calls' ∧
      Submitting h (· ≠ .dropped) calls' own callback := by
  cases hsubmitting with
  | other hother =>
      refine ⟨calls, ?_, .refl _ _, .other hother⟩
      cases callback with
      | report label => exact hreach.disregard rfl rfl rfl
      | fence h' o =>
          have hne : h' ≠ h := by
            rintro rfl
            exact hother o rfl
          have hnoted := hreach.step (.elsewhere (.note hne report.code))
          exact hnoted.settle o _
  | @own i began now hcall hframe hnow =>
      have hi := (List.getElem?_eq_some_iff.mp hcall).1
      refine ⟨_, hreach.complete hcall hnow (Or.inl hframe) report, keepsCalls_set _ _ _, ?_⟩
      exact .own (List.getElem?_set_self hi) hframe nofun

/-! ### Submissions -/

/-- Submitting a callback on the path is a run. -/
def SubmitsInSteps (h : Nat) (path : JournalPath) : Prop :=
  ∀ {w : Host} {calls : List FenceCall} {own : Option (Nat × FenceCall)} {callback : Callback}
    (t : Thread) (entry : Bytes) (ack : Bool), Reachable h ⟨w, calls⟩ →
    Submitting h (· = .handed) calls own callback →
    ∃ calls', Reachable h ⟨(Host.submit path w t entry ack callback).2, calls'⟩ ∧
      KeepsCalls (own.map Prod.fst) calls calls' ∧ Submitting h (· ≠ .dropped) calls' own callback

section Submissions

variable {path : JournalPath} (hpath : SubmitsInSteps h path)

include hpath

/-- Submitting the marker of a call is a run, in which the call hands it over once
and is told by the journal what became of it. -/
theorem submitMarker_runs {i : Nat} {c : FenceCall} (hreach : Reachable h ⟨w, calls⟩)
    (hcall : calls[i]? = some c) (hframe : c.frame = .decided) (t : Thread) :
    ∃ calls' frame callback,
      Reachable h ⟨w.submitMarker (Host.submit path) t h c.outcome, calls'⟩ ∧
      KeepsCalls (some i) calls calls' ∧
      calls'[i]? = some { c with submissions := c.submissions + 1, frame, callback } := by
  have hi := (List.getElem?_eq_some_iff.mp hcall).1
  have hhanded := hreach.step (.call hcall (.submit hframe))
  let began :=
    { c with submissions := c.submissions + 1, frame := .submitting, callback := .handed }
  have hown : Submitting h (· = .handed) (calls.set i began) (some (i, began))
      (.fence h c.outcome) := .own (List.getElem?_set_self hi) rfl rfl
  obtain ⟨calls', hdone, hkeeps, hsubmitting⟩ := hpath t
    (Entry.fenceMarker (w.handleAt h).ledger) (w.handleAt h).ackBeforeSync hhanded hown
  have hkept := (keepsCalls_set calls i _).trans hkeeps
  -- whatever became of the callback meanwhile, the journal answers the thread now
  cases hsubmitting with
  | @own _ _ now hcall' hframe' hnow =>
      have hi' := (List.getElem?_eq_some_iff.mp hcall').1
      unfold Host.submitMarker
      dsimp only
      split
      next w' htaken =>
        rw [htaken] at hdone
        have haccepted := hdone.step (.call hcall' (.accept hframe' hnow))
        exact ⟨_, _, now, haccepted, hkept.trans (keepsCalls_set _ _ _),
          List.getElem?_set_self hi'⟩
      next cause w' hrefused =>
        rw [hrefused] at hdone
        have hrefused := hdone.step (.call hcall' (.refuse cause hframe'))
        have hanswered := hrefused.step (.call (List.getElem?_set_self hi') (.reject t cause rfl))
        rw [List.set_set] at hanswered
        exact ⟨_, _, now, hanswered, hkept.trans (keepsCalls_set _ _ _),
          List.getElem?_set_self hi'⟩

/-- The marker of another handle is none of the calls. -/
theorem submitOther_runs {h' : Nat} (hother : h' ≠ h) (hreach : Reachable h ⟨w, calls⟩)
    (t : Thread) (o : Nat) :
    ∃ calls', Reachable h ⟨w.submitMarker (Host.submit path) t h' o, calls'⟩ ∧
      KeepsCalls none calls calls' := by
  obtain ⟨calls', hdone, hkeeps, -⟩ := hpath t (Entry.fenceMarker (w.handleAt h').ledger)
    (w.handleAt h').ackBeforeSync hreach
    (.other fun o' heq => hother (Callback.fence.inj heq).1)
  unfold Host.submitMarker
  dsimp only
  split
  next w' htaken =>
    rw [htaken] at hdone
    exact ⟨calls', hdone, hkeeps⟩
  next cause w' hrefused =>
    rw [hrefused] at hdone
    exact ⟨calls', hdone.refuseOther t o cause, hkeeps⟩

/-- A call that is made through a handle hands over one marker if an append is due,
and otherwise none. -/
def Adds (h : Nat) (s : Fencing) (handle : HandleRef) (answer : Except HandleError Nat)
    (calls : List FenceCall) : Prop :=
  ∀ o, handle = .writable h → answer = .ok o → ∃ c, calls[s.calls.length]? = some c ∧
    c.outcome = o ∧ c.due = s.appendDue ∧ c.submissions = if s.appendDue then 1 else 0

/-- A fence call on a path: decided, and then submitted if that is due. -/
theorem fenceThrough_runs (hreach : Reachable h ⟨w, calls⟩) (t : Thread) (handle : HandleRef) :
    ∃ calls', Reachable h ⟨(w.fenceThrough (Host.submit path) t handle).2, calls'⟩ ∧
      KeepsCalls none calls calls' ∧
      Adds h ⟨w, calls⟩ handle (w.fenceThrough (Host.submit path) t handle).1 calls' := by
  cases handle with
  | reader r => exact ⟨calls, hreach, .refl _ _, nofun⟩
  | writable h' =>
      change ∃ calls', Reachable h ⟨(w.fenceWith (Host.submit path) t h').2, calls'⟩ ∧ _ ∧
        Adds h _ _ (w.fenceWith (Host.submit path) t h').1 calls'
      unfold Host.fenceWith
      by_cases hown : h' = h
      · subst hown
        split
        next hdecide => exact ⟨calls, hreach.step (.fail hdecide), .refl _ _, nofun⟩
        next d w' hdecide =>
          have hdecided := hreach.step (.decide hdecide)
          have hdecides := Host.decideFence_decides w h'
          rw [hdecide] at hdecides
          obtain ⟨x, hexact⟩ := hreach.exact
          -- what the decision reads agrees with the calls so far
          have hdue : Host.appends d.path = Fencing.appendDue ⟨w, calls⟩ :=
            hexact.path_due hdecides
          dsimp only
          split
          next happends =>
            obtain ⟨calls', frame, callback, hdone, hkeeps, hcall⟩ := submitMarker_runs hpath
              hdecided List.getElem?_concat_length (if_pos happends) t
            refine ⟨calls', hdone, hkeeps.of_concat, ?_⟩
            rintro o - hanswer
            exact ⟨_, hcall, Except.ok.inj hanswer, rfl, (if_pos (hdue ▸ happends)).symm⟩
          next hidle =>
            refine ⟨_, hdecided, keepsCalls_concat _ _, ?_⟩
            rintro o - hanswer
            exact ⟨_, List.getElem?_concat_length, Except.ok.inj hanswer, rfl,
              (if_neg (hdue ▸ hidle)).symm⟩
      · -- a call of another handle is none of the calls
        have hdecided := hreach.step (.elsewhere (.decide hown))
        have hnone : ∀ {answer calls'}, Adds h ⟨w, calls⟩ (.writable h') answer calls' :=
          fun o heq => absurd (HandleRef.writable.inj heq) hown
        split
        next hdecide =>
          rw [hdecide] at hdecided
          exact ⟨calls, hdecided, .refl _ _, hnone⟩
        next d w' hdecide =>
          rw [hdecide] at hdecided
          dsimp only
          split
          next =>
            obtain ⟨calls', hdone, hkeeps⟩ :=
              submitOther_runs hpath hown hdecided t d.outcome
            exact ⟨calls', hdone, hkeeps, hnone⟩
          next => exact ⟨calls, hdecided, .refl _ _, hnone⟩

end Submissions

/-- By induction on the path: what it fences on the way is a call of its own. -/
theorem submit_inSteps (h : Nat) (path : JournalPath) : SubmitsInSteps h path := by
  induction path with
  | journal id =>
      intro w calls own callback t entry ack hreach hsubmitting
      unfold Host.submit Host.submitTo
      split
      next => exact ⟨calls, hreach, .refl _ _, hsubmitting.notDropped⟩
      next =>
        dsimp only
        split
        next => exact ⟨calls, hreach.disregard rfl rfl rfl, .refl _ _, hsubmitting.notDropped⟩
        next report _ =>
          refine complete_runs ?_ hsubmitting report
          exact hreach.disregard rfl rfl rfl
        next => exact ⟨calls, hreach.disregard rfl rfl rfl, .refl _ _, hsubmitting.notDropped⟩
  | reportThenRefuse code cause =>
      intro w calls own callback t entry ack hreach hsubmitting
      exact complete_runs hreach hsubmitting _
  | refencing handle inner ih =>
      intro w calls own callback t entry ack hreach hsubmitting
      -- the call on the way runs first, and the entry is submitted behind it
      obtain ⟨calls', hfenced, hkeeps, -⟩ := fenceThrough_runs ih hreach t handle
      have hseen : Reachable h ⟨(w.fence inner t handle).2.emit
          (.refenced ((w.fence inner t handle).1.map (w.fence inner t handle).2.outcomeAt)),
          calls'⟩ := by
        refine hfenced.disregard ?_ ?_ ?_ <;> rfl
      obtain ⟨calls'', hdone, hkeeps', hsubmitted⟩ :=
        ih t entry ack hseen (hsubmitting.keeps hkeeps)
      exact ⟨calls'', hdone, (hkeeps.any _).trans hkeeps', hsubmitted⟩

/-- A fence call that nobody interrupts is a run, on every path and of every
handle. The calls decided on before it are as they were, and a call of the handle
comes right behind them. -/
theorem fence_runs {h : Nat} {s : Fencing} (hreach : Reachable h s) (path : JournalPath)
    (t : Thread) (handle : HandleRef) :
    ∃ calls, Reachable h ⟨(s.host.fence path t handle).2, calls⟩ ∧
      KeepsCalls none s.calls calls ∧
      ∀ o, handle = .writable h → (s.host.fence path t handle).1 = .ok o →
        ∃ c, calls[s.calls.length]? = some c ∧ c.outcome = o ∧ c.due = s.appendDue ∧
          c.submissions = if s.appendDue then 1 else 0 :=
  fenceThrough_runs (submit_inSteps h path) hreach t handle

end Fencing

end FencedLedger
