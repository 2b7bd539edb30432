import FencedLedger.Proofs.OutcomeRuns

/-!
# Outcomes are faithful

What a caller reads off an outcome is what happened to the marker that it tracks.
The outcomes of a run, its history and the queues of its journals are compared
after the run and say the same, pending outcomes included: one stays pending as
long as a journal holds the callback.
-/

namespace FencedLedger

namespace Host

variable {w : Host} {log : List MarkerEvent}

/-- The history of a run goes on from where the run was. -/
theorem history_append (w : Host) (ops ops' : List Op) :
    w.history (ops ++ ops') = w.history ops ++ (w.run ops).history ops' := by
  induction ops generalizing w with
  | nil => rfl
  | cons op ops ih =>
      change w.markerEvents op ++ (w.perform op).2.history (ops ++ ops') =
        (w.markerEvents op ++ (w.perform op).2.history ops) ++ (w.run (op :: ops)).history ops'
      rw [ih, List.append_assoc]
      rfl

/-- Events of one outcome are of one handle. -/
theorem Faithful.same_handle (hf : Faithful log [] w) {e e' : MarkerEvent} (he : e ∈ log)
    (he' : e' ∈ log) (ho : e.outcome = e'.outcome) : e.handle = e'.handle := by
  have hstart : ∀ {e : MarkerEvent}, e ∈ log →
      ∃ s ∈ log, s.starts = true ∧ s.handle = e.handle ∧ s.outcome = e.outcome := by
    intro e he
    cases hstarts : e.starts with
    | true => exact ⟨e, he, hstarts, rfl, rfl⟩
    | false => exact ⟨_, hf.origin he hstarts, rfl, rfl, rfl⟩
  obtain ⟨s, hs, hstarts, hhandle, houtcome⟩ := hstart he
  obtain ⟨s', hs', hstarts', hhandle', houtcome'⟩ := hstart he'
  have hsame := hf.owner hs hs' hstarts hstarts' (houtcome.trans (ho.trans houtcome'.symm))
  rw [← hhandle, ← hhandle', hsame]

/-- A result can be read off an outcome just when an event gave it that result. -/
theorem Faithful.result_iff (hf : Faithful log [] w) {e : MarkerEvent} (he : e ∈ log)
    (r : FenceResult) : (w.outcomeAt e.outcome).result = some r ↔
      ∃ e' ∈ log, e'.handle = e.handle ∧ e'.outcome = e.outcome ∧ e'.result? = some r := by
  rw [← Option.mem_toList, ← hf.results he, mem_endsOf]
  constructor
  · rintro ⟨e', he', ho, hr⟩
    exact ⟨e', he', hf.same_handle he' he ho, ho, hr⟩
  · rintro ⟨e', he', -, ho, hr⟩
    exact ⟨e', he', ho, hr⟩

/-- Once nobody has a callback in hand, an outcome is pending just while a journal holds it. -/
theorem Faithful.pending_iff (hf : Faithful log [] w) {e : MarkerEvent} (he : e ∈ log) :
    (w.outcomeAt e.outcome).result = none ↔
      ∃ id, ∃ x ∈ w.heldBy id, x.callback = .fence e.handle e.outcome := by
  obtain ⟨x, hx⟩ := Option.isSome_iff_exists.mp (hf.known he).2
  have hat : w.outcomeAt e.outcome = x := by simp [outcomeAt, hx]
  have hpending : x.result = none ↔ ∃ h, Live (w.markersAt []) (h, e.outcome) := by
    rw [← hf.pending, hx]
    simp
  rw [hat, hpending]
  constructor
  · rintro ⟨h, hm⟩
    have hopened := hf.live hm
    have hhandle : h = e.handle := hf.same_handle hopened he rfl
    obtain ⟨i, hm⟩ := hm
    cases i with
    -- nobody has a callback in hand, so it is in a queue
    | none => cases hm
    | some id =>
        obtain ⟨held, hheld, hmarker⟩ := List.mem_filterMap.mp hm
        refine ⟨id, held, hheld, ?_⟩
        cases hcallback : held.callback with
        | report label => rw [hcallback] at hmarker; cases hmarker
        | fence h' o =>
            rw [hcallback] at hmarker
            cases hmarker
            rw [hhandle]
  · rintro ⟨id, held, hheld, hcallback⟩
    refine ⟨e.handle, some id, List.mem_filterMap.mpr ⟨held, hheld, ?_⟩⟩
    rw [hcallback]
    rfl

theorem endsOf_append (log log' : List MarkerEvent) (o : Nat) :
    endsOf (log ++ log') o = endsOf log o ++ endsOf log' o := by
  unfold endsOf
  rw [List.filter_append, List.filterMap_append]

/-- Every event is about an outcome that was put up for its handle. -/
theorem Faithful.put_up (hf : Faithful log [] w) {e : MarkerEvent} (he : e ∈ log) :
    .opened e.handle e.outcome ∈ log ∨ .found e.handle e.outcome ∈ log := by
  cases e with
  | opened h o => exact Or.inl he
  | found h o => exact Or.inr he
  | joined | refused | completed | dropped => exact Or.inl (hf.origin he rfl)

/-- A result is there to stay. -/
theorem Faithful.result_stays {w' : Host} {log' : List MarkerEvent} (hf : Faithful log [] w)
    (hf' : Faithful (log ++ log') [] w') {e : MarkerEvent} (he : e ∈ log) {r : FenceResult}
    (hr : (w.outcomeAt e.outcome).result = some r) :
    (w'.outcomeAt e.outcome).result = some r := by
  have hends := hf'.results (List.mem_append_left _ he)
  rw [endsOf_append, hf.results he, hr] at hends
  cases hlater : (w'.outcomeAt e.outcome).result with
  | none =>
      rw [hlater] at hends
      cases hends
  | some r' =>
      rw [hlater] at hends
      exact congrArg some (List.cons.inj hends).1.symm

/-- A fence call that answers an outcome has an event for it. -/
theorem mem_fenceEvents {h id o : Nat} {t : Thread}
    (hanswer : (w.fenceWith (submitTo id) t h).1 = .ok o) :
    .opened h o ∈ w.fenceEvents id t h ∨ .joined h o ∈ w.fenceEvents id t h ∨
      .found h o ∈ w.fenceEvents id t h := by
  have hdecides := decideFence_decides w h
  unfold fenceWith at hanswer
  unfold fenceEvents
  generalize w.decideFence h = r at hdecides hanswer ⊢
  cases hdecides with
  | failed e w₁ idle => cases hanswer
  | first w₁ sets clear puts =>
      cases hanswer
      exact Or.inl List.mem_cons_self
  | retry w₁ sets fenced unmarked idle puts =>
      cases hanswer
      exact Or.inl List.mem_cons_self
  | inFlight o' w₁ sets fenced unmarked underWay handles outcomes =>
      cases hanswer
      exact Or.inr (Or.inl List.mem_cons_self)
  | alreadyPersisted w₁ sets fenced marked handles outcomes =>
      cases hanswer
      exact Or.inr (Or.inr List.mem_cons_self)

/-- A fence call that answers an outcome opened it, joined it, or found its handle marked. -/
theorem mem_markerEvents_fence {h id o : Nat} {t : Thread}
    (hanswer : (w.perform (.fence (.writable h) (.journal id) t)).1 = .ok (.object o)) :
    .opened h o ∈ w.markerEvents (.fence (.writable h) (.journal id) t) ∨
      .joined h o ∈ w.markerEvents (.fence (.writable h) (.journal id) t) ∨
      .found h o ∈ w.markerEvents (.fence (.writable h) (.journal id) t) := by
  have hevents : w.markerEvents (.fence (.writable h) (.journal id) t) =
      if w.knowsHandle (.writable h) && w.knowsPath (.journal id) then w.fenceEvents id t h
      else [] := rfl
  obtain ⟨hheld, hcall⟩ := whenHeld_ok hanswer
  obtain ⟨o', hfence, ho⟩ := answer_ok hcall
  cases ho
  rw [hevents, if_pos hheld]
  exact mem_fenceEvents hfence

/-- What the history of a run from `w` says of an outcome of the handle `h` is
what the outcome says. -/
structure ReadsOff (w : Host) (ops : List Op) (h o : Nat) : Prop where
  durable : ((w.run ops).outcomeAt o).result = some (.ok true) ↔
    (∃ code, .completed h o code ∈ w.history ops ∧ code.isOk = true) ∨
      .found h o ∈ w.history ops
  failed : ((w.run ops).outcomeAt o).result = some (.ok false) ↔
    ∃ code, .completed h o code ∈ w.history ops ∧ code.isOk = false
  interrupted : ((w.run ops).outcomeAt o).result = some (.error .interrupted) ↔
    .refused h o .interrupted ∈ w.history ops
  refused : ∀ cause, ((w.run ops).outcomeAt o).result = some (.error (.journal cause)) ↔
    cause ≠ .interrupted ∧ .refused h o cause ∈ w.history ops
  abandoned : ((w.run ops).outcomeAt o).result = some (.error .abandoned) ↔
    .dropped h o ∈ w.history ops
  pending : ((w.run ops).outcomeAt o).result = none ↔
    ∃ id, ∃ x ∈ (w.run ops).heldBy id, x.callback = .fence h o
  /-- At most one event ends the append. -/
  once : (endsOf (w.history ops) o).length ≤ 1
  /-- Whoever joined the append did so through the same handle. -/
  shared : ∀ e ∈ w.history ops, e.outcome = o → e.handle = h

/-- All that a caller reads off an outcome, from the invariant at the end of the run. -/
theorem Faithful.readsOff {ops : List Op} (hf : Faithful (w.history ops) [] (w.run ops))
    {e : MarkerEvent} (he : e ∈ w.history ops) : ReadsOff w ops e.handle e.outcome where
  durable := by
    rw [hf.result_iff he]
    constructor
    · rintro ⟨e', he', hh, ho, hr⟩
      -- no other events settle an outcome with success
      cases e' with
      | opened | joined | refused | dropped => cases hr
      | found h' o' => exact Or.inr (hh ▸ ho ▸ he')
      | completed h' o' code =>
          exact Or.inl ⟨code, hh ▸ ho ▸ he', Except.ok.inj (Option.some.inj hr)⟩
    · rintro (⟨code, he', hok⟩ | he')
      · exact ⟨_, he', rfl, rfl, congrArg (fun b => some (Except.ok b)) hok⟩
      · exact ⟨_, he', rfl, rfl, rfl⟩
  failed := by
    rw [hf.result_iff he]
    constructor
    · rintro ⟨e', he', hh, ho, hr⟩
      cases e' with
      | opened | joined | found | refused | dropped => cases hr
      | completed h' o' code =>
          exact ⟨code, hh ▸ ho ▸ he', Except.ok.inj (Option.some.inj hr)⟩
    · rintro ⟨code, he', hfailed⟩
      exact ⟨_, he', rfl, rfl, congrArg (fun b => some (Except.ok b)) hfailed⟩
  interrupted := by
    rw [hf.result_iff he]
    constructor
    · rintro ⟨e', he', hh, ho, hr⟩
      cases e' with
      | opened | joined | found | completed | dropped => cases hr
      | refused h' o' cause =>
          cases cause with
          | interrupted => exact hh ▸ ho ▸ he'
          | shutDown => cases hr
    · intro he'
      exact ⟨_, he', rfl, rfl, rfl⟩
  refused cause := by
    rw [hf.result_iff he]
    constructor
    · rintro ⟨e', he', hh, ho, hr⟩
      cases e' with
      | opened | joined | found | completed | dropped => cases hr
      | refused h' o' cause' =>
          cases cause' with
          | interrupted => cases hr
          | shutDown =>
              cases hr
              exact ⟨nofun, hh ▸ ho ▸ he'⟩
    · rintro ⟨hcause, he'⟩
      refine ⟨_, he', rfl, rfl, ?_⟩
      -- an interruption is told apart from the other refusals
      cases cause with
      | interrupted => exact absurd rfl hcause
      | shutDown => rfl
  abandoned := by
    rw [hf.result_iff he]
    constructor
    · rintro ⟨e', he', hh, ho, hr⟩
      cases e' with
      | opened | joined | found | completed => cases hr
      | refused h' o' cause => cases cause <;> cases hr
      | dropped h' o' => exact hh ▸ ho ▸ he'
    · intro he'
      exact ⟨_, he', rfl, rfl, rfl⟩
  pending := hf.pending_iff he
  once := by
    rw [hf.results he]
    cases ((w.run ops).outcomeAt e.outcome).result <;> simp
  shared e' he' ho := hf.same_handle he' he ho

/-- After every run on journals that keep a state, the outcome that a fence call
of the run answered is as the history says, whatever else happened. It was put
up by the call or by an earlier one of the same handle, and a result that it
once had is the one it has. The handle is marked exactly when an append of it was
completed with success. -/
theorem fence_outcome_faithful (faults : Option FaultPlan) {ops pre post : List Op}
    {h id o : Nat} {t : Thread} (hops : ∀ op ∈ ops, op.toJournals = true)
    (hsplit : ops = pre ++ .fence (.writable h) (.journal id) t :: post)
    (hanswer : (((start faults).run pre).perform (.fence (.writable h) (.journal id) t)).1 =
      .ok (.object o)) :
    ReadsOff (start faults) ops h o ∧
      (.opened h o ∈ (start faults).history (pre ++ [.fence (.writable h) (.journal id) t]) ∨
        .found h o ∈ (start faults).history (pre ++ [.fence (.writable h) (.journal id) t])) ∧
      (∀ mid rest r, post = mid ++ rest →
        (((start faults).run
          (pre ++ .fence (.writable h) (.journal id) t :: mid)).outcomeAt o).result = some r →
        (((start faults).run ops).outcomeAt o).result = some r) ∧
      ((((start faults).run ops).handleAt h).persisted = true ↔
        ∃ o' code, .completed h o' code ∈ (start faults).history ops ∧ code.isOk = true) := by
  have hfaithful : ∀ {pre' post'}, ops = pre' ++ post' →
      Faithful ((start faults).history pre') [] ((start faults).run pre') := by
    intro pre' post' hpre
    exact run_faithful (start_faithful faults) pre'
      fun op hmem => hops op (hpre ▸ List.mem_append_left _ hmem)
  -- the event of the call, which is in every longer history
  have hevents := mem_markerEvents_fence hanswer
  have hcall : ∃ e ∈ ((start faults).run pre).markerEvents (.fence (.writable h) (.journal id) t),
      e.handle = h ∧ e.outcome = o := by
    rcases hevents with hopened | hjoined | hfound
    · exact ⟨_, hopened, rfl, rfl⟩
    · exact ⟨_, hjoined, rfl, rfl⟩
    · exact ⟨_, hfound, rfl, rfl⟩
  obtain ⟨e, he, rfl, rfl⟩ := hcall
  have hlonger : ∀ mid, e ∈ (start faults).history
      (pre ++ .fence (.writable e.handle) (.journal id) t :: mid) := by
    intro mid
    rw [history_append]
    exact List.mem_append_right _ (List.mem_append_left _ he)
  have hf := hfaithful (List.append_nil ops).symm
  refine ⟨hf.readsOff (hsplit ▸ hlonger post), ?_, ?_, hf.marks e.handle⟩
  · have hcalled : ops = (pre ++ [.fence (.writable e.handle) (.journal id) t]) ++ post := by
      rw [hsplit, List.append_assoc]
      rfl
    exact (hfaithful hcalled).put_up (hlonger [])
  · intro mid rest r hpost hr
    have hmid : ops = (pre ++ .fence (.writable e.handle) (.journal id) t :: mid) ++ rest := by
      rw [hsplit, hpost, List.append_assoc]
      rfl
    have hbefore := hfaithful hmid
    rw [hmid] at hf ⊢
    -- what the history says of the outcome has one end, which was there already
    rw [history_append] at hf
    exact hbefore.result_stays hf (hlonger mid) hr

/-- A marker is held back while a second caller joins its append, and completed. -/
def sharing : List Op :=
  [.createScriptedJournal .hold, .createHandle ⟨1⟩ [0x6b] false,
    .fence (.writable 0) (.journal 0) (.worker 0), .fence (.writable 0) (.journal 0) (.worker 1),
    .completeNext 0 .ok]

/-- The second caller learns that the marker of the first is durable. -/
theorem joined_outcome_durable :
    (((start none).run sharing).outcomeAt 0).result = some (.ok true) := by
  have hfaithful := @fence_outcome_faithful none sharing (sharing.take 3) (sharing.drop 4)
    0 0 0 (.worker 1) (by decide) rfl rfl
  exact hfaithful.1.durable.mpr (Or.inl ⟨.ok, by decide, by decide⟩)

end Host

end FencedLedger
