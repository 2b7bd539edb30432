import FencedLedger.Proofs.QueueRuns

/-!
# Markers come from fence calls

The callback of a marker exists only if a fence call of its handle decided on
the append. So only a handle for which an append was decided on is ever marked
as durably fenced, whichever journal the marker went to.
-/

namespace FencedLedger

/-- The handle of a marker is there, and an append was decided on for it. -/
def Callback.Started (w : Host) : Callback → Prop
  | .fence h _ => ∃ x, w.handles.get? h = some x ∧ x.started = true
  | .report _ => True

namespace Host

variable {w w' : Host}

/-- Durable marks, and callbacks that may bring them about, belong to handles
for which an append was decided on. -/
structure MarkersStarted (w : Host) : Prop where
  persisted : ∀ {h x}, w.handles.get? h = some x → x.persisted = true → x.started = true
  held : ∀ {id : Nat} {x : Held}, x ∈ w.heldBy id → x.callback.Started w

theorem start_markersStarted (faults : Option FaultPlan) : MarkersStarted (start faults) where
  persisted hx := by cases hx
  held hx := by cases hx

/-- Handles for which an append was decided on stay so. -/
def KeepsStarted (w w' : Host) : Prop :=
  ∀ {h x}, w.handles.get? h = some x → x.started = true →
    ∃ y, w'.handles.get? h = some y ∧ y.started = true

theorem Fences.keepsStarted (h : Fences w w') : KeepsStarted w w' := by
  intro i x hx hstarted
  obtain ⟨y, hy, -, -, hstays, -⟩ := h.bound hx
  exact ⟨y, hy, hstays hstarted⟩

theorem keepsStarted_of_eq (h : w'.handles = w.handles) : KeepsStarted w w' := by
  intro i x hx hstarted
  exact ⟨x, by rwa [h], hstarted⟩

/-- A handle that has started an append has started it for good. -/
theorem KeepsStarted.callback {callback : Callback} (hkeeps : KeepsStarted w w')
    (h : callback.Started w) : callback.Started w' := by
  cases callback with
  | report label => trivial
  | fence i o =>
      obtain ⟨x, hx, hstarted⟩ := h
      exact hkeeps hx hstarted

/-- What a change has to do with marks and queues to keep the invariant. -/
theorem MarkersStarted.keeps (hm : MarkersStarted w) (hkeeps : KeepsStarted w w')
    (hmarks : ∀ {h y}, w'.handles.get? h = some y → y.persisted = true →
      y.started = true ∨ ∃ x, w.handles.get? h = some x ∧ x.persisted = true)
    (hqueues : ∀ {id : Nat} {x : Held}, x ∈ w'.heldBy id →
      x ∈ w.heldBy id ∨ x.callback.Started w) : MarkersStarted w' where
  persisted {h y} hy hpersisted := by
    rcases hmarks hy hpersisted with hstarted | ⟨x, hx, hmarked⟩
    · exact hstarted
    · obtain ⟨z, hz, hstarted⟩ := hkeeps hx (hm.persisted hx hmarked)
      obtain rfl : z = y := Option.some.inj (hz.symm.trans hy)
      exact hstarted
  held hx := by
    rcases hqueues hx with hbefore | hstarted
    · exact hkeeps.callback (hm.held hbefore)
    · exact hkeeps.callback hstarted

/-- Only handles and queues matter. -/
theorem MarkersStarted.of_eq (hm : MarkersStarted w) (hhandles : w'.handles = w.handles)
    (hjournals : w'.journals = w.journals) : MarkersStarted w' := by
  refine hm.keeps (keepsStarted_of_eq hhandles) ?_ ?_
  · intro h y hy hpersisted
    rw [hhandles] at hy
    exact Or.inr ⟨y, hy, hpersisted⟩
  · intro id x hx
    rw [heldBy_of_journals hjournals] at hx
    exact Or.inl hx

/-- Handles that are made start nothing, and the queues hold what they held. -/
theorem MarkersStarted.calm (hm : MarkersStarted w) (h : Calm w w') : MarkersStarted w' := by
  refine hm.keeps ?_ ?_ ?_
  · intro i x hx hstarted
    exact ⟨x, h.handles.kept hx, hstarted⟩
  · intro i y hy hpersisted
    cases hx : w.handles.get? i with
    | none =>
        rw [(h.handles.fresh hx hy).2] at hpersisted
        cases hpersisted
    | some x =>
        obtain rfl : x = y := Option.some.inj ((h.handles.kept hx).symm.trans hy)
        exact Or.inr ⟨x, rfl, hpersisted⟩
  · intro id x hx
    rw [heldBy_of_journals h.journals] at hx
    exact Or.inl hx

/-- A queue may lose callbacks, or get some that are started. -/
theorem MarkersStarted.requeues {id : Nat} {queue : List Held} (hm : MarkersStarted w)
    (h : Requeues id queue w w') (hqueue : ∀ x ∈ queue, x.callback.Started w) :
    MarkersStarted w' := by
  refine hm.keeps (keepsStarted_of_eq h.handles) ?_ ?_
  · intro i y hy hpersisted
    rw [h.handles] at hy
    exact Or.inr ⟨y, hy, hpersisted⟩
  · intro id' x hx
    by_cases hid : id = id'
    · subst hid
      rw [h.queue] at hx
      exact Or.inr (hqueue x hx)
    · rw [h.others id' hid] at hx
      exact Or.inl hx

/-! ### The end of an append -/

/-- A mark may be set by a callback of a handle that was decided on. -/
theorem MarkersStarted.noteMarker {h : Nat} {x : Handle} (hm : MarkersStarted w)
    (hx : w.handles.get? h = some x) (hstarted : x.started = true) (code : ReturnCode) :
    MarkersStarted (w.noteMarker h code) := by
  have hkeeps : KeepsStarted w (w.noteMarker h code) := (noteMarker_fences w h code).keepsStarted
  refine hm.keeps hkeeps ?_ ?_
  · intro i y hy hpersisted
    by_cases hi : h = i
    · subst hi
      -- the handle that is marked is the one that the callback belongs to
      obtain ⟨z, hz, hstays⟩ := hkeeps hx hstarted
      obtain rfl : z = y := Option.some.inj (hz.symm.trans hy)
      exact Or.inl hstays
    · rw [noteMarker_get?, if_neg hi] at hy
      exact Or.inr ⟨y, hy, hpersisted⟩
  · intro id x hx
    rw [heldBy_of_journals (noteMarker_same w h code).2] at hx
    exact Or.inl hx

/-- A callback that is run marks a handle that has started its append. -/
theorem MarkersStarted.complete {callback : Callback} (hm : MarkersStarted w)
    (h : callback.Started w) (report : Completion) :
    MarkersStarted (w.complete callback report) := by
  cases callback with
  | report label => exact hm.of_eq rfl rfl
  | fence i o =>
      obtain ⟨x, hx, hstarted⟩ := h
      have hnoted := hm.noteMarker hx hstarted report.code
      exact hnoted.of_eq rfl rfl

theorem MarkersStarted.abandon (hm : MarkersStarted w) (callback : Callback) :
    MarkersStarted (w.abandon callback) := by
  cases callback with
  | report label => exact hm
  | fence i o => exact hm.of_eq rfl rfl

/-! ### Fence calls -/

theorem PutsUp.started {h : Nat} {x : Handle} (hputs : PutsUp h w w')
    (hx : w.handles.get? h = some x) (o : Nat) : (Callback.fence h o).Started w' := by
  refine ⟨{ x with latest := some w.outcomes.next }, ?_, rfl⟩
  rw [hputs.handles, Arena.get?_modify, if_pos rfl, hx]
  rfl

/-- A decision starts the marker of its handle. -/
theorem MarkersStarted.puts {h : Nat} (hm : MarkersStarted w) (hputs : PutsUp h w w')
    (hsets : SetsBit h w w') : MarkersStarted w' := by
  refine hm.keeps (hputs.fences hsets).keepsStarted ?_ ?_
  · intro i y hy hpersisted
    rw [hputs.handles, Arena.get?_modify] at hy
    split at hy
    next =>
      obtain ⟨x, hx, rfl⟩ := Option.map_eq_some_iff.mp hy
      exact Or.inl rfl
    next => exact Or.inr ⟨y, hy, hpersisted⟩
  · intro id x hx
    rw [heldBy_of_journals hsets.journals] at hx
    exact Or.inl hx

theorem MarkersStarted.refuseMarker (hm : MarkersStarted w) (t : Thread) (o : Nat)
    (cause : JournalError) : MarkersStarted (w.refuseMarker t o cause) := by
  unfold Host.refuseMarker
  split <;> exact hm.of_eq rfl rfl

/-- A decision keeps the invariant, and a marker that it decides to append is of
a handle for which an append was decided on. -/
theorem Decides.markersStarted {h : Nat} {r : Except HandleError FenceDecision × Host}
    (hdecides : Decides h w r) (hm : MarkersStarted w) (hknown : w.handles.holds h = true) :
    MarkersStarted r.2 ∧ ∀ decision, r.1 = .ok decision → appends decision.path = true →
      (Callback.fence h decision.outcome).Started r.2 := by
  obtain ⟨x, hx⟩ := Option.isSome_iff_exists.mp hknown
  cases hdecides with
  | failed e w' idle => exact ⟨hm.of_eq idle.handles idle.journals, nofun⟩
  | first w' sets clear puts =>
      exact ⟨hm.puts puts sets, fun decision _ _ => puts.started hx decision.outcome⟩
  | retry w' sets fenced unmarked idle puts =>
      exact ⟨hm.puts puts sets, fun decision _ _ => puts.started hx decision.outcome⟩
  | inFlight o w' sets fenced unmarked underWay handles outcomes =>
      refine ⟨hm.of_eq handles sets.journals, ?_⟩
      intro decision hdecision happends
      cases hdecision
      cases happends
  | alreadyPersisted w' sets fenced marked handles outcomes =>
      refine ⟨hm.of_eq handles sets.journals, ?_⟩
      intro decision hdecision happends
      cases hdecision
      cases happends

/-- Whether the host holds the handles that a path fences. -/
def knowsHandlesOn (w : Host) : JournalPath → Bool
  | .journal _ | .reportThenRefuse .. => true
  | .refencing handle inner => w.knowsHandle handle && w.knowsHandlesOn inner

/-- A path that is known goes by handles that are known. -/
theorem knowsHandlesOn_of_knowsPath {path : JournalPath} (h : w.knowsPath path = true) :
    w.knowsHandlesOn path = true := by
  induction path with
  | journal id => rfl
  | reportThenRefuse code cause => rfl
  | refencing handle inner ih =>
      obtain ⟨hhandle, hinner⟩ := Bool.and_eq_true_iff.mp h
      exact Bool.and_eq_true_iff.mpr ⟨hhandle, ih hinner⟩

/-- Handles that are known stay known. -/
theorem Fences.knowsHandle (h : Fences w w') {handle : HandleRef}
    (hknown : w.knowsHandle handle = true) : w'.knowsHandle handle = true := by
  cases handle with
  | reader r =>
      change (w'.readers.get? r).isSome = true
      rw [h.readers]
      exact hknown
  | writable i =>
      obtain ⟨x, hx⟩ := Option.isSome_iff_exists.mp hknown
      obtain ⟨y, hy, -⟩ := h.bound hx
      exact Option.isSome_iff_exists.mpr ⟨y, hy⟩

theorem Fences.knowsHandlesOn (h : Fences w w') {path : JournalPath}
    (hknown : w.knowsHandlesOn path = true) : w'.knowsHandlesOn path = true := by
  induction path with
  | journal id => rfl
  | reportThenRefuse code cause => rfl
  | refencing handle inner ih =>
      obtain ⟨hhandle, hinner⟩ := Bool.and_eq_true_iff.mp hknown
      exact Bool.and_eq_true_iff.mpr ⟨h.knowsHandle hhandle, ih hinner⟩

/-- Submitting on the path keeps the invariant, given a callback that fits it. -/
def SubmitsStarted (path : JournalPath) : Prop :=
  ∀ (w : Host) (t : Thread) (entry : Bytes) (ack : Bool) (callback : Callback),
    w.knowsHandlesOn path = true → MarkersStarted w → callback.Started w →
    MarkersStarted (submit path w t entry ack callback).2

/-- A fence call starts its marker before it hands it over, and so do the calls on the way. -/
theorem fence_markersStarted {path : JournalPath} (hpath : SubmitsStarted path) (w : Host)
    (t : Thread) (handle : HandleRef) (hm : MarkersStarted w)
    (hknown : w.knowsHandle handle = true) (hon : w.knowsHandlesOn path = true) :
    MarkersStarted (w.fence path t handle).2 := by
  cases handle with
  | reader r => exact hm
  | writable h =>
      have hdecides := decideFence_decides w h
      obtain ⟨hdecided, hstarted⟩ := hdecides.markersStarted hm hknown
      have hfences := hdecides.fences
      change MarkersStarted (w.fenceWith (submit path) t h).2
      unfold fenceWith
      split
      next hfailed =>
        rw [hfailed] at hdecided
        exact hdecided
      next decision w₁ hok =>
        rw [hok] at hdecided hstarted hfences
        dsimp only
        split
        next happends =>
          -- the decision has put the outcome up before the marker is handed over
          have hsubmit := hpath w₁ t (Entry.fenceMarker (w₁.handleAt h).ledger)
            (w₁.handleAt h).ackBeforeSync (.fence h decision.outcome)
            (hfences.knowsHandlesOn hon) hdecided (hstarted decision rfl happends)
          unfold submitMarker
          dsimp only
          split
          next htaken =>
            rw [htaken] at hsubmit
            exact hsubmit
          next cause w₂ hrefused =>
            rw [hrefused] at hsubmit
            exact hsubmit.refuseMarker t decision.outcome cause
        next => exact hdecided

/-- A journal may take or run a callback that is started. -/
theorem Submits.markersStarted {id : Nat} {entry : Bytes} {callback : Callback} {v : Verdict}
    {r : Except JournalError Unit × Host} (h : Submits id entry callback w v r)
    (hm : MarkersStarted w) (hcallback : callback.Started w) : MarkersStarted r.2 := by
  have hold : ∀ x ∈ w.heldBy id, x.callback.Started w := fun _ hx => hm.held hx
  cases h with
  | refused cause w' h => exact hm.requeues h hold
  | completed report w' h =>
      have hkeeps : KeepsStarted w w' := keepsStarted_of_eq h.handles
      exact (hm.requeues h hold).complete (KeepsStarted.callback hkeeps hcallback) report
  | held w' h =>
      refine hm.requeues h fun x hx => ?_
      rcases List.mem_append.mp hx with hbefore | hnew
      · exact hold x hbefore
      · rw [List.mem_singleton.mp hnew]
        exact hcallback

/-- By induction on the path: what it fences on the way, it fences first. -/
theorem submit_submitsStarted (path : JournalPath) : SubmitsStarted path := by
  induction path with
  | journal id =>
      intro w t entry ack callback _ hm hcallback
      exact (submitTo_submits id w t entry ack callback).markersStarted hm hcallback
  | reportThenRefuse code cause =>
      intro w t entry ack callback _ hm hcallback
      exact hm.complete hcallback _
  | refencing handle inner ih =>
      intro w t entry ack callback hon hm hcallback
      obtain ⟨hknown, hinner⟩ := Bool.and_eq_true_iff.mp hon
      have hfenced := fence_markersStarted ih w t handle hm hknown hinner
      have hfences := fence_fences w inner t handle
      have hemit := (emit_idle (w.fence inner t handle).2 (e := .refenced
        ((w.fence inner t handle).1.map (w.fence inner t handle).2.outcomeAt)) rfl).fences
      exact ih _ t entry ack callback ((hfences.trans hemit).knowsHandlesOn hinner)
        (hfenced.of_eq rfl rfl)
        (KeepsStarted.callback (hfences.trans hemit).keepsStarted hcallback)

/-! ### Completions -/

/-- The invariant, with the markers in hand. -/
structure StartedInHand (log : List MarkerEvent) (hand : List (Nat × Nat)) (w : Host) : Prop where
  markers : MarkersStarted w
  hand : ∀ m ∈ hand, (Callback.fence m.1 m.2).Started w

theorem StartedInHand.callback {log : List MarkerEvent} {hand : List (Nat × Nat)}
    {callback : Callback} (hs : StartedInHand log (callback.marker?.toList ++ hand) w) :
    callback.Started w := by
  cases callback with
  | report label => trivial
  | fence h o => exact hs.hand (h, o) List.mem_cons_self

theorem StartedInHand.rest {log log' : List MarkerEvent} {hand : List (Nat × Nat)}
    {callback : Callback} (hs : StartedInHand log (callback.marker?.toList ++ hand) w)
    (hm : MarkersStarted w') (hkeeps : KeepsStarted w w') : StartedInHand log' hand w' :=
  ⟨hm, fun m hmem => hkeeps.callback (hs.hand m (List.mem_append_right _ hmem))⟩

/-- Callbacks in hand come from a queue, so they are started. -/
theorem startedInHand_keptByEnds : KeptByEnds StartedInHand where
  take {log hand w w' id taken rest} hs hheld hqueue _ := by
    have hkeeps : KeepsStarted w w' := keepsStarted_of_eq hqueue.handles
    have hold : ∀ x ∈ taken ++ rest, x.callback.Started w := by
      intro x hx
      exact hs.markers.held (by rwa [hheld])
    refine ⟨hs.markers.requeues hqueue fun x hx => hold x (List.mem_append_right _ hx), ?_⟩
    intro m hm
    rcases List.mem_append.mp hm with htaken | hhand
    · obtain ⟨x, hx, hmarker⟩ := List.mem_filterMap.mp htaken
      have hstarted := hold x (List.mem_append_left _ hx)
      cases hcallback : x.callback with
      | report label => rw [hcallback] at hmarker; cases hmarker
      | fence h o =>
          rw [hcallback] at hmarker hstarted
          cases hmarker
          exact hkeeps.callback hstarted
    · exact hkeeps.callback (hs.hand m hhand)
  complete {log hand w callback} report hs :=
    hs.rest (hs.markers.complete hs.callback report)
      (complete_fences w callback report).keepsStarted
  abandon {log hand w callback} hs :=
    hs.rest (hs.markers.abandon callback) (abandon_fences w callback).keepsStarted

/-! ### Operations and runs -/

theorem whenHeld_markersStarted {held : Bool} {r : Except Failure Answer × Host}
    (hm : MarkersStarted w) (h : held = true → MarkersStarted r.2) :
    MarkersStarted (w.whenHeld held r).2 := by
  unfold whenHeld
  split
  next hheld => exact h hheld
  next => exact hm

/-- Only fence calls make markers, so operations keep the markers started. -/
theorem perform_markersStarted (hm : MarkersStarted w) (op : Op) :
    MarkersStarted (w.perform op).2 := by
  have hstart : StartedInHand [] [] w := ⟨hm, nofun⟩
  cases op with
  | fence handle path thread =>
      refine whenHeld_markersStarted hm fun hknown => ?_
      obtain ⟨hhandle, hpath⟩ := Bool.and_eq_true_iff.mp hknown
      rw [answer_host]
      exact fence_markersStarted (submit_submitsStarted path) w thread handle hm hhandle
        (knowsHandlesOn_of_knowsPath hpath)
  | log path thread entry ack label =>
      refine whenHeld_markersStarted hm fun hpath => ?_
      rw [answer_host]
      exact submit_submitsStarted path w thread entry ack _
        (knowsHandlesOn_of_knowsPath hpath) hm trivial
  | completeNext | completeAll | dropNext | releaseJournal =>
      exact (startedInHand_keptByEnds.perform hstart rfl).markers
  | createMemoryJournal | createScriptedJournal | shutDown | setMode | queueFailure =>
      exact hm.requeues (setUp_requeues w rfl 0) fun _ hx => hm.held hx
  | createOutcome result => exact hm.of_eq rfl rfl
  | _ => exact hm.calm (perform_calm w rfl)

theorem run_markersStarted (hm : MarkersStarted w) (ops : List Op) :
    MarkersStarted (w.run ops) := by
  induction ops generalizing w with
  | nil => exact hm
  | cons op ops ih => exact ih (perform_markersStarted hm op)

end Host

end FencedLedger
