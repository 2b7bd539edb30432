import FencedLedger.Proofs.MarkerHistory

/-!
# The invariant of outcomes

The result of every outcome in the history is what the history says of its
marker, and the outcome is pending exactly while the marker's callback is
somewhere. The invariant pairs each pending outcome with one live callback, which
is in hand while it is being submitted, run or let go, and in the queue of a
journal otherwise. Each event has its own lemma here.
-/

namespace FencedLedger

/-- The ends that a history gives an outcome. -/
def endsOf (log : List MarkerEvent) (o : Nat) : List FenceResult :=
  (log.filter fun e => e.outcome = o).filterMap MarkerEvent.result?

/-- An event gives an end to its own outcome only. -/
theorem endsOf_concat (log : List MarkerEvent) (e : MarkerEvent) (o : Nat) :
    endsOf (log ++ [e]) o =
      endsOf log o ++ if e.outcome = o then e.result?.toList else [] := by
  unfold endsOf
  rw [List.filter_append, List.filterMap_append]
  congr 1
  by_cases ho : e.outcome = o
  · rw [if_pos ho, List.filter_cons_of_pos (by simpa using ho)]
    cases hr : e.result? <;> simp [hr]
  · rw [if_neg ho, List.filter_cons_of_neg (by simpa using ho)]
    rfl

/-- An outcome that no event mentions has not ended. -/
theorem endsOf_eq_nil {log : List MarkerEvent} {o : Nat}
    (h : ∀ e ∈ log, e.outcome ≠ o) : endsOf log o = [] := by
  unfold endsOf
  rw [List.filter_eq_nil_iff.mpr]
  · rfl
  · intro e he
    simpa using h e he

/-- The ends of an outcome are the results that its events have. -/
theorem mem_endsOf {log : List MarkerEvent} {o : Nat} {r : FenceResult} :
    r ∈ endsOf log o ↔ ∃ e ∈ log, e.outcome = o ∧ e.result? = some r := by
  unfold endsOf
  simp only [List.mem_filterMap, List.mem_filter, decide_eq_true_eq]
  constructor
  · rintro ⟨e, ⟨hmem, ho⟩, hr⟩
    exact ⟨e, hmem, ho, hr⟩
  · rintro ⟨e, hmem, ho, hr⟩
    exact ⟨e, ⟨hmem, ho⟩, hr⟩

namespace Host

variable {w w' : Host} {log : List MarkerEvent} {hand : List (Nat × Nat)}

/-- The state agrees with the history, given the markers in hand. -/
structure Faithful (log : List MarkerEvent) (hand : List (Nat × Nat)) (w : Host) : Prop where
  apart : Apart (w.markersAt hand)
  pending : ∀ o, (∃ x, w.outcomes.get? o = some x ∧ x.result = none) ↔
    ∃ h, Live (w.markersAt hand) (h, o)
  live : ∀ {h o}, Live (w.markersAt hand) (h, o) → .opened h o ∈ log
  latest : ∀ {h x o}, w.handles.get? h = some x → x.latest = some o → .opened h o ∈ log
  known : ∀ {e}, e ∈ log →
    w.handles.holds e.handle = true ∧ w.outcomes.holds e.outcome = true
  origin : ∀ {e}, e ∈ log → e.starts = false → .opened e.handle e.outcome ∈ log
  owner : ∀ {e e'}, e ∈ log → e' ∈ log → e.starts = true → e'.starts = true →
    e.outcome = e'.outcome → e = e'
  results : ∀ {e}, e ∈ log →
    endsOf log e.outcome = (w.outcomeAt e.outcome).result.toList
  marks : ∀ h, (w.handleAt h).persisted = true ↔
    ∃ o code, .completed h o code ∈ log ∧ code.isOk = true

/-- At the start there is no outcome, no callback and no history. -/
theorem start_faithful (faults : Option FaultPlan) : Faithful [] [] (start faults) where
  apart := by
    refine ⟨?_, ?_⟩
    · intro i
      cases i <;> exact List.nodup_nil
    · intro i j m m' hm
      cases i <;> cases hm
  pending o := by
    constructor
    · rintro ⟨x, hx, -⟩
      cases hx
    · rintro ⟨h, i, hm⟩
      cases i <;> cases hm
  live := by
    rintro h o ⟨i, hm⟩
    cases i <;> cases hm
  latest hx := by cases hx
  known he := by cases he
  origin he := by cases he
  owner he := by cases he
  results he := by cases he
  marks h := by
    constructor
    · intro hmarked
      cases hmarked
    · rintro ⟨o, code, he, -⟩
      cases he

/-! ### Changes without events -/

theorem markersAt_queue (h : w'.journals = w.journals) (hand hand' : List (Nat × Nat)) (id : Nat) :
    w'.markersAt hand' (some id) = w.markersAt hand (some id) := by
  rw [markersAt_some, heldBy_of_journals h, markersAt_some]

theorem markersAt_of_journals (h : w'.journals = w.journals) :
    w'.markersAt hand = w.markersAt hand := by
  funext i
  cases i with
  | none => rfl
  | some id => exact markersAt_queue h hand hand id

/-- Handles that are made set no mark on others. -/
theorem HandlesGrow.persisted_eq (h : HandlesGrow w.handles w'.handles) (i : Nat) :
    (w'.handleAt i).persisted = (w.handleAt i).persisted := by
  unfold handleAt
  cases hx : w.handles.get? i with
  | some x => rw [h.kept hx]
  | none =>
      cases hy : w'.handles.get? i with
      | none => rfl
      | some y => exact (h.fresh hx hy).2

/-- A step that touches neither outcomes nor queues keeps the invariant. -/
theorem Faithful.calm (hf : Faithful log hand w) (h : Calm w w') : Faithful log hand w' := by
  have hmarkers : w'.markersAt hand = w.markersAt hand := markersAt_of_journals h.journals
  refine ⟨by rw [hmarkers]; exact hf.apart, by rw [h.outcomes, hmarkers]; exact hf.pending,
    by rw [hmarkers]; exact hf.live, ?_, ?_, hf.origin, hf.owner, ?_, ?_⟩
  · intro i y o hy hlatest
    cases hx : w.handles.get? i with
    | none =>
        -- nothing was appended for a handle that was just made
        rw [(h.handles.fresh hx hy).1] at hlatest
        cases hlatest
    | some x =>
        obtain rfl : x = y := Option.some.inj ((h.handles.kept hx).symm.trans hy)
        exact hf.latest hx hlatest
  · intro e he
    obtain ⟨hhandle, houtcome⟩ := hf.known he
    obtain ⟨x, hx⟩ := Option.isSome_iff_exists.mp hhandle
    refine ⟨Option.isSome_iff_exists.mpr ⟨x, h.handles.kept hx⟩, ?_⟩
    rwa [h.outcomes]
  · intro e he
    rw [outcomeAt, h.outcomes]
    exact hf.results he
  · intro i
    rw [HandlesGrow.persisted_eq h.handles]
    exact hf.marks i

theorem Faithful.of_eq (hf : Faithful log hand w) (hhandles : w'.handles = w.handles)
    (houtcomes : w'.outcomes = w.outcomes) (hjournals : w'.journals = w.journals) :
    Faithful log hand w' :=
  hf.calm ⟨.of_eq hhandles, houtcomes, hjournals⟩

/-- Markers may move, as long as none is lost and none shares its outcome. -/
theorem Faithful.moves {hand' : List (Nat × Nat)} (hf : Faithful log hand w)
    (hhandles : w'.handles = w.handles) (houtcomes : w'.outcomes = w.outcomes)
    (hlive : ∀ m, Live (w'.markersAt hand') m ↔ Live (w.markersAt hand) m)
    (hapart : Apart (w'.markersAt hand')) : Faithful log hand' w' where
  apart := hapart
  pending o := by
    rw [houtcomes, hf.pending]
    exact exists_congr fun h => (hlive (h, o)).symm
  live hm := hf.live ((hlive _).mp hm)
  latest hx := by
    rw [hhandles] at hx
    exact hf.latest hx
  known he := by
    rw [hhandles, houtcomes]
    exact hf.known he
  origin := hf.origin
  owner := hf.owner
  results he := by
    rw [outcomeAt, houtcomes]
    exact hf.results he
  marks h := by
    rw [handleAt_of_handles hhandles]
    exact hf.marks h

/-! ### Queues -/

section Queues

variable {id : Nat} {queue : List Held}

/-- Only one queue and what is in hand change. -/
theorem Requeues.markersAt_others {hand' : List (Nat × Nat)} (h : Requeues id queue w w') :
    ∀ k, k ≠ none → k ≠ some id → w'.markersAt hand' k = w.markersAt hand k := by
  intro k hnone hid
  cases k with
  | none => exact absurd rfl hnone
  | some id' =>
      have hne : id ≠ id' := fun heq => hid (congrArg some heq.symm)
      rw [markersAt_some, h.others id' hne, markersAt_some]

/-- Entries without a marker come and go unseen. -/
theorem Faithful.requeued (hf : Faithful log hand w) (h : Requeues id queue w w')
    (hsame : queue.filterMap (·.callback.marker?) =
      (w.heldBy id).filterMap (·.callback.marker?)) : Faithful log hand w' := by
  have hmarkers : w'.markersAt hand = w.markersAt hand := by
    funext k
    cases k with
    | none => rfl
    | some id' =>
        by_cases hid : id = id'
        · subst hid
          rw [markersAt_some, h.queue, hsame, markersAt_some]
        · rw [markersAt_some, h.others id' hid, markersAt_some]
  refine hf.moves h.handles h.outcomes ?_ ?_
  · intro m
    rw [hmarkers]
  · rw [hmarkers]
    exact hf.apart

/-- The marker in hand is put at the end of a queue. -/
theorem Faithful.hold {h o : Nat} {entry : Bytes} (hf : Faithful log ((h, o) :: hand) w)
    (hqueue : Requeues id (w.heldBy id ++ [⟨entry, .fence h o⟩]) w w') :
    Faithful log hand w' := by
  have hfrom : ([(h, o)] ++ w'.markersAt hand none).Perm (w.markersAt ((h, o) :: hand) none) :=
    List.Perm.refl _
  have hto : ([(h, o)] ++ w.markersAt ((h, o) :: hand) (some id)).Perm
      (w'.markersAt hand (some id)) := by
    rw [markersAt_some, markersAt_some, hqueue.queue, List.filterMap_append]
    exact List.perm_append_comm
  have hothers : ∀ k, k ≠ none → k ≠ some id →
      w'.markersAt hand k = w.markersAt ((h, o) :: hand) k := hqueue.markersAt_others
  exact hf.moves hqueue.handles hqueue.outcomes (live_move hfrom hto hothers)
    (hf.apart.move (by simp) hfrom hto hothers)

/-- What is taken off a queue is in hand. -/
theorem Faithful.take {taken rest : List Held} (hf : Faithful log hand w)
    (hheld : w.heldBy id = taken ++ rest) (hqueue : Requeues id rest w w') :
    Faithful log (taken.filterMap (·.callback.marker?) ++ hand) w' := by
  have hfrom : (taken.filterMap (·.callback.marker?) ++
      w'.markersAt (taken.filterMap (·.callback.marker?) ++ hand) (some id)).Perm
      (w.markersAt hand (some id)) := by
    rw [markersAt_some, markersAt_some, hqueue.queue, hheld, List.filterMap_append]
  have hto : (taken.filterMap (·.callback.marker?) ++ w.markersAt hand none).Perm
      (w'.markersAt (taken.filterMap (·.callback.marker?) ++ hand) none) := List.Perm.refl _
  have hothers : ∀ k, k ≠ some id → k ≠ none →
      w'.markersAt (taken.filterMap (·.callback.marker?) ++ hand) k = w.markersAt hand k :=
    fun k hid hnone => hqueue.markersAt_others k hnone hid
  exact hf.moves hqueue.handles hqueue.outcomes (live_move hfrom hto hothers)
    (hf.apart.move (by simp) hfrom hto hothers)

end Queues

/-! ### Events -/

/-- The marks that an event leaves on handles. -/
def marksOf (e : MarkerEvent) (h : Nat) : Prop :=
  ∃ o code, e = .completed h o code ∧ code.isOk = true

theorem not_marksOf (e : MarkerEvent) (he : ∀ h o code, e ≠ .completed h o code) (i : Nat) :
    ¬ marksOf e i := by
  rintro ⟨o, code, rfl, -⟩
  exact he i o code rfl

/-- The handles are the same after the event, but for the marks that it leaves. -/
structure EndsHandles (e : MarkerEvent) (w w' : Host) : Prop where
  holds : ∀ i, w'.handles.holds i = w.handles.holds i
  latest : ∀ {i y}, w'.handles.get? i = some y →
    ∃ x, w.handles.get? i = some x ∧ x.latest = y.latest
  marks : ∀ i, (w'.handleAt i).persisted = true ↔
    (w.handleAt i).persisted = true ∨ marksOf e i

theorem endsHandles_of_eq {e : MarkerEvent} (hhandles : w'.handles = w.handles)
    (he : ∀ i, ¬ marksOf e i) : EndsHandles e w w' where
  holds i := by rw [hhandles]
  latest {_ y} hy := ⟨y, by rwa [hhandles] at hy, rfl⟩
  marks i := by
    rw [handleAt_of_handles hhandles]
    exact ⟨Or.inl, fun hmarked => hmarked.resolve_right (he i)⟩

/-- What a change that comes with an event has to do to agree with it. -/
structure Agrees (log : List MarkerEvent) (e : MarkerEvent) (w w' : Host) : Prop where
  handle : w'.handles.holds e.handle = true
  outcome : w'.outcomes.holds e.outcome = true
  handles : ∀ {h}, w.handles.holds h = true → w'.handles.holds h = true
  outcomes : ∀ {o}, w.outcomes.holds o = true → w'.outcomes.holds o = true
  origin : e.starts = false → .opened e.handle e.outcome ∈ log
  fresh : e.starts = true → ∀ e' ∈ log, e'.outcome ≠ e.outcome
  latest : ∀ {h y o}, w'.handles.get? h = some y → y.latest = some o →
    .opened h o = e ∨ ∃ x, w.handles.get? h = some x ∧ x.latest = some o
  others : ∀ o, o ≠ e.outcome → (w'.outcomeAt o).result = (w.outcomeAt o).result
  result : (w'.outcomeAt e.outcome).result.toList =
    endsOf log e.outcome ++ e.result?.toList
  marks : ∀ h, (w'.handleAt h).persisted = true ↔
    (w.handleAt h).persisted = true ∨ marksOf e h

/-- One event moves one outcome: it is opened, ends, or is handed on to a queue. -/
theorem Faithful.event {hand' : List (Nat × Nat)} {e : MarkerEvent}
    (hf : Faithful log hand w) (h : Agrees log e w w') (hapart : Apart (w'.markersAt hand'))
    (hpending : ∀ o, (∃ x, w'.outcomes.get? o = some x ∧ x.result = none) ↔
      ∃ i, Live (w'.markersAt hand') (i, o))
    (hlive : ∀ {i o}, Live (w'.markersAt hand') (i, o) → .opened i o ∈ log ++ [e]) :
    Faithful (log ++ [e]) hand' w' where
  apart := hapart
  pending := hpending
  live := hlive
  latest hy hlatest := by
    rcases h.latest hy hlatest with heq | ⟨x, hx, hbefore⟩
    · rw [heq]
      exact List.mem_append_right _ List.mem_cons_self
    · exact List.mem_append_left _ (hf.latest hx hbefore)
  known he := by
    rcases List.mem_append.mp he with hold | hnew
    · obtain ⟨hhandle, houtcome⟩ := hf.known hold
      exact ⟨h.handles hhandle, h.outcomes houtcome⟩
    · rw [List.mem_singleton.mp hnew]
      exact ⟨h.handle, h.outcome⟩
  origin he hstarts := by
    rcases List.mem_append.mp he with hold | hnew
    · exact List.mem_append_left _ (hf.origin hold hstarts)
    · rw [List.mem_singleton.mp hnew] at hstarts ⊢
      exact List.mem_append_left _ (h.origin hstarts)
  owner {e₁ e₂} he₁ he₂ hstarts₁ hstarts₂ heq := by
    -- an event that starts an outcome finds no older event of it
    rcases List.mem_append.mp he₁ with hold₁ | hnew₁
    · rcases List.mem_append.mp he₂ with hold₂ | hnew₂
      · exact hf.owner hold₁ hold₂ hstarts₁ hstarts₂ heq
      · rw [List.mem_singleton.mp hnew₂] at hstarts₂ heq
        exact absurd heq (h.fresh hstarts₂ e₁ hold₁)
    · rw [List.mem_singleton.mp hnew₁] at hstarts₁ heq ⊢
      rcases List.mem_append.mp he₂ with hold₂ | hnew₂
      · exact absurd heq.symm (h.fresh hstarts₁ e₂ hold₂)
      · exact (List.mem_singleton.mp hnew₂).symm
  results {e'} he := by
    rw [endsOf_concat]
    by_cases ho : e.outcome = e'.outcome
    · rw [if_pos ho, ← ho]
      exact h.result.symm
    · rw [if_neg ho, List.append_nil, h.others _ (Ne.symm ho)]
      rcases List.mem_append.mp he with hold | hnew
      · exact hf.results hold
      · exact absurd (congrArg MarkerEvent.outcome (List.mem_singleton.mp hnew).symm) ho
  marks i := by
    rw [h.marks, hf.marks]
    constructor
    · rintro (⟨o, code, hmem, hok⟩ | ⟨o, code, rfl, hok⟩)
      · exact ⟨o, code, List.mem_append_left _ hmem, hok⟩
      · exact ⟨o, code, List.mem_append_right _ List.mem_cons_self, hok⟩
    · rintro ⟨o, code, hmem, hok⟩
      rcases List.mem_append.mp hmem with hold | hnew
      · exact Or.inl ⟨o, code, hold, hok⟩
      · exact Or.inr ⟨o, code, (List.mem_singleton.mp hnew).symm, hok⟩

/-! ### Decisions -/

/-- Outcomes of the history were put up before. -/
theorem Faithful.outcome_ne_next (hf : Faithful log hand w) {e : MarkerEvent} (he : e ∈ log) :
    e.outcome ≠ w.outcomes.next := by
  intro heq
  have hknown := (hf.known he).2
  rw [heq, Arena.holds, w.outcomes.get?_of_next_le (Nat.le_refl _)] at hknown
  cases hknown

/-- Putting up an outcome is the event of a marker that is opened. -/
theorem PutsUp.agrees {h : Nat} (hf : Faithful log hand w) (hputs : PutsUp h w w')
    (hknown : w.handles.holds h = true) :
    Agrees log (.opened h w.outcomes.next) w w' where
  handle := by rwa [hputs.handles, Arena.holds_modify]
  outcome := by
    rw [hputs.outcomes, Arena.holds]
    exact Option.isSome_iff_exists.mpr ⟨_, Arena.get?_add_next _ _⟩
  handles hi := by rwa [hputs.handles, Arena.holds_modify]
  outcomes ho := by
    rw [hputs.outcomes]
    exact w.outcomes.holds_add ho _
  origin hstarts := absurd hstarts Bool.noConfusion
  fresh _ _ he := hf.outcome_ne_next he
  latest {i y o} hy hlatest := by
    rw [hputs.handles, Arena.get?_modify] at hy
    split at hy
    -- the handle that it is put up on now has it as its latest
    next hi =>
      subst hi
      obtain ⟨x, -, rfl⟩ := Option.map_eq_some_iff.mp hy
      exact Or.inl (congrArg (MarkerEvent.opened h) (Option.some.inj hlatest).symm)
    next => exact Or.inr ⟨y, hy, hlatest⟩
  others o ho := by
    change o ≠ w.outcomes.next at ho
    rw [outcomeAt_add hputs.outcomes, if_neg ho]
  result := by
    change (w'.outcomeAt w.outcomes.next).result.toList = endsOf log w.outcomes.next ++ []
    rw [endsOf_eq_nil fun e he => hf.outcome_ne_next he, outcomeAt_add hputs.outcomes,
      if_pos rfl]
    rfl
  marks i := by
    have hmarks : (w'.handleAt i).persisted = (w.handleAt i).persisted := by
      rw [handleAt, hputs.handles, Arena.get?_modify, handleAt]
      split
      next => cases w.handles.get? i <;> rfl
      next => rfl
    rw [hmarks]
    have hno := not_marksOf (.opened h w.outcomes.next) (fun _ _ _ => MarkerEvent.noConfusion) i
    exact ⟨Or.inl, fun hmarked => hmarked.resolve_right hno⟩

/-- A marker is in hand once its outcome is put up. -/
theorem Faithful.opened {h : Nat} (hf : Faithful log hand w) (hputs : PutsUp h w w')
    (hjournals : w'.journals = w.journals) (hknown : w.handles.holds h = true) :
    Faithful (log ++ [.opened h w.outcomes.next]) ((h, w.outcomes.next) :: hand) w' := by
  have hqueues : ∀ id, w'.markersAt ((h, w.outcomes.next) :: hand) (some id) =
      w.markersAt hand (some id) :=
    markersAt_queue hjournals hand _
  have hmarkers := live_cons (m := (h, w.outcomes.next)) rfl hqueues
  have hfresh : ∀ m, Live (w.markersAt hand) m → m.2 ≠ w.outcomes.next :=
    fun m hm => hf.outcome_ne_next (hf.live hm)
  refine hf.event (hputs.agrees hf hknown) (hf.apart.cons rfl hqueues hfresh) ?_ ?_
  · -- the new outcome goes with the marker in hand, the others go as before
    intro o
    by_cases ho : o = w.outcomes.next
    · subst ho
      refine ⟨fun _ => ⟨h, (hmarkers _).mpr (Or.inl rfl)⟩, fun _ => ?_⟩
      exact ⟨.pending, by rw [hputs.outcomes]; exact Arena.get?_add_next _ _, rfl⟩
    · rw [hputs.outcomes]
      simp only [Arena.get?_add, if_neg ho]
      rw [hf.pending]
      refine exists_congr fun i => ?_
      rw [hmarkers]
      exact ⟨Or.inr, fun hm => hm.resolve_left fun heq => ho (congrArg Prod.snd heq)⟩
  · intro i o hm
    rcases (hmarkers _).mp hm with heq | hbefore
    · cases heq
      exact List.mem_append_right _ List.mem_cons_self
    · exact List.mem_append_left _ (hf.live hbefore)

/-- The append that a call joins is one of the same handle. -/
theorem Faithful.joined {h o : Nat} (hf : Faithful log hand w)
    (hunder : w.underWay? h = some o) (hhandles : w'.handles = w.handles)
    (houtcomes : w'.outcomes = w.outcomes) (hjournals : w'.journals = w.journals)
    (hknown : w.handles.holds h = true) : Faithful (log ++ [.joined h o]) hand w' := by
  obtain ⟨x, hx⟩ := Option.isSome_iff_exists.mp hknown
  have hlatest : x.latest = some o := by
    unfold underWay? handleAt at hunder
    rw [hx] at hunder
    exact (Option.filter_eq_some_iff.mp hunder).1
  have hopened : .opened h o ∈ log := hf.latest hx hlatest
  have hsame := hf.of_eq hhandles houtcomes hjournals
  have hno := not_marksOf (.joined h o) fun _ _ _ => nofun
  have hagrees : Agrees log (.joined h o) w w' := by
    refine ⟨by rwa [hhandles], by rw [houtcomes]; exact (hf.known hopened).2,
      fun hi => by rwa [hhandles], fun ho => by rwa [houtcomes], fun _ => hopened, nofun, ?_,
      ?_, ?_, (endsHandles_of_eq hhandles hno).marks⟩
    · intro i y o' hy hlatest
      rw [hhandles] at hy
      exact Or.inr ⟨y, hy, hlatest⟩
    · intro o' _
      rw [outcomeAt, houtcomes, outcomeAt]
    · have hresult := hsame.results hopened
      change (w'.outcomeAt o).result.toList = endsOf log o ++ []
      rw [List.append_nil]
      exact hresult.symm
  exact hf.event hagrees hsame.apart hsame.pending
    fun hm => List.mem_append_left _ (hsame.live hm)

/-- An outcome that is settled from the start is nobody's append. -/
theorem Faithful.settledAdded {r : FenceResult} (hf : Faithful log hand w)
    (hhandles : w'.handles = w.handles) (houtcomes : w'.outcomes = w.outcomes.add (.settled r))
    (hjournals : w'.journals = w.journals) : Faithful log hand w' := by
  have hmarkers : w'.markersAt hand = w.markersAt hand := markersAt_of_journals hjournals
  refine ⟨by rw [hmarkers]; exact hf.apart, ?_, by rw [hmarkers]; exact hf.live,
    fun hx => hf.latest (hhandles ▸ hx), ?_, hf.origin, hf.owner, ?_, ?_⟩
  · intro o
    rw [hmarkers, ← hf.pending, houtcomes]
    simp only [Arena.get?_add]
    -- its number is new, and it is pending neither before nor after
    by_cases ho : o = w.outcomes.next
    · rw [if_pos ho, ho, w.outcomes.get?_of_next_le (Nat.le_refl _)]
      constructor
      · rintro ⟨x, hx, hpending⟩
        cases hx
        cases hpending
      · rintro ⟨x, hx, -⟩
        cases hx
    · rw [if_neg ho]
  · intro e he
    obtain ⟨hhandle, houtcome⟩ := hf.known he
    rw [hhandles, houtcomes]
    exact ⟨hhandle, w.outcomes.holds_add houtcome _⟩
  · intro e he
    rw [outcomeAt_add houtcomes, if_neg (hf.outcome_ne_next he)]
    exact hf.results he
  · intro i
    rw [handleAt_of_handles hhandles]
    exact hf.marks i

/-- An outcome that is settled from the start has no marker anywhere. -/
theorem Faithful.found {h : Nat} (hf : Faithful log hand w)
    (hhandles : w'.handles = w.handles)
    (houtcomes : w'.outcomes = w.outcomes.add (.settled (.ok true)))
    (hjournals : w'.journals = w.journals) (hknown : w.handles.holds h = true) :
    Faithful (log ++ [.found h w.outcomes.next]) hand w' := by
  have hsame := hf.settledAdded hhandles houtcomes hjournals
  have hno := not_marksOf (.found h w.outcomes.next) fun _ _ _ => nofun
  have hagrees : Agrees log (.found h w.outcomes.next) w w' := by
    refine ⟨by rwa [hhandles], ?_, fun hi => by rwa [hhandles],
      fun ho => by rw [houtcomes]; exact w.outcomes.holds_add ho _, nofun,
      fun _ e he => hf.outcome_ne_next he, ?_, ?_, ?_,
      (endsHandles_of_eq hhandles hno).marks⟩
    · rw [houtcomes, Arena.holds]
      exact Option.isSome_iff_exists.mpr ⟨_, Arena.get?_add_next _ _⟩
    · intro i y o' hy hlatest
      rw [hhandles] at hy
      exact Or.inr ⟨y, hy, hlatest⟩
    · intro o ho
      change o ≠ w.outcomes.next at ho
      rw [outcomeAt_add houtcomes, if_neg ho]
    · change (w'.outcomeAt w.outcomes.next).result.toList =
        endsOf log w.outcomes.next ++ [.ok true]
      rw [endsOf_eq_nil fun e he => hf.outcome_ne_next he, outcomeAt_add houtcomes, if_pos rfl]
      rfl
  exact hf.event hagrees hsame.apart hsame.pending
    fun hm => List.mem_append_left _ (hsame.live hm)

/-! ### The end of an append -/

/-- An outcome that is pending takes the result that it is settled with. -/
theorem settle_pending {o : Nat} {x : Outcome} (hx : w.outcomes.get? o = some x)
    (hpending : x.result = none) (r : FenceResult) (o' : Nat) :
    (w.settle o r).outcomes.get? o' =
      if o = o' then some (.settled r) else w.outcomes.get? o' := by
  change (w.outcomes.modify o _).get? o' = _
  rw [Arena.get?_modify]
  split
  next ho =>
    rw [← ho, hx, Option.map_some]
    unfold Outcome.settle
    rw [hpending]
  next => rfl

/-- Settling a pending outcome agrees with the event that ends its append. -/
theorem EndsHandles.agrees {h o : Nat} {e : MarkerEvent} {r : FenceResult} {x : Outcome}
    (hends : EndsHandles e w w') (hf : Faithful log hand w) (hhandle : e.handle = h)
    (houtcome : e.outcome = o) (hstarts : e.starts = false) (hresult : e.result? = some r)
    (hopened : .opened h o ∈ log) (houtcomes : w'.outcomes = w.outcomes)
    (hx : w.outcomes.get? o = some x) (hpending : x.result = none) :
    Agrees log e w (w'.settle o r) := by
  rw [← houtcomes] at hx
  have hget := settle_pending hx hpending r
  have hsettled : ∀ o', (w'.settle o r).outcomeAt o' =
      if o = o' then .settled r else w.outcomeAt o' := by
    intro o'
    rw [outcomeAt, hget, outcomeAt, houtcomes]
    split <;> rfl
  refine ⟨?_, ?_, ?_, ?_, ?_, ?_, ?_, ?_, ?_, hends.marks⟩
  · change w'.handles.holds e.handle = true
    rw [hends.holds, hhandle]
    exact (hf.known hopened).1
  · rw [Arena.holds, hget, if_pos houtcome.symm]
    rfl
  · intro i hi
    change w'.handles.holds i = true
    rwa [hends.holds]
  · intro o' ho'
    rw [Arena.holds, hget, houtcomes]
    split
    next => rfl
    next => exact ho'
  · rw [hhandle, houtcome]
    exact fun _ => hopened
  · intro hcontra
    rw [hstarts] at hcontra
    cases hcontra
  · intro i y o' hy hlatest
    obtain ⟨z, hz, hsame⟩ := hends.latest hy
    exact Or.inr ⟨z, hz, hsame.trans hlatest⟩
  · intro o' ho'
    rw [houtcome] at ho'
    rw [hsettled, if_neg ho'.symm]
  · -- nothing has ended the append before
    have hbefore := hf.results hopened
    change endsOf log o = (w.outcomeAt o).result.toList at hbefore
    rw [houtcomes] at hx
    rw [houtcome, hsettled, if_pos rfl, hresult, hbefore, outcomeAt, hx]
    change [r] = x.result.toList ++ [r]
    rw [hpending]
    rfl

/-- The marker in hand ends its append, which was pending until now. -/
theorem Faithful.ends {h o : Nat} {e : MarkerEvent} {r : FenceResult}
    (hf : Faithful log ((h, o) :: hand) w) (hhandle : e.handle = h) (houtcome : e.outcome = o)
    (hstarts : e.starts = false) (hresult : e.result? = some r)
    (hends : EndsHandles e w w') (houtcomes : w'.outcomes = w.outcomes)
    (hjournals : w'.journals = w.journals) :
    Faithful (log ++ [e]) hand (w'.settle o r) := by
  have hqueues : ∀ id, w.markersAt ((h, o) :: hand) (some id) =
      (w'.settle o r).markersAt hand (some id) :=
    fun id => (markersAt_queue hjournals _ hand id).symm
  have hmarkers := live_cons (m := (h, o)) (q := (w'.settle o r).markersAt hand) rfl hqueues
  have hrest : Apart ((w'.settle o r).markersAt hand) ∧
      ∀ m, Live ((w'.settle o r).markersAt hand) m → m.2 ≠ o :=
    hf.apart.uncons (m := (h, o)) rfl fun id => (hqueues id).symm
  obtain ⟨hapart, hother⟩ := hrest
  have hin : Live (w.markersAt ((h, o) :: hand)) (h, o) := (hmarkers _).mpr (Or.inl rfl)
  have hopened : .opened h o ∈ log := hf.live hin
  obtain ⟨x, hx, hpending⟩ := (hf.pending o).mpr ⟨h, hin⟩
  have hagrees : Agrees log e w (w'.settle o r) :=
    hends.agrees hf hhandle houtcome hstarts hresult hopened houtcomes hx hpending
  refine hf.event hagrees hapart ?_ fun hm => List.mem_append_left _ (hf.live ?_)
  · -- the outcome is pending no more, and no marker that is left shares it
    intro o'
    rw [settle_pending (houtcomes ▸ hx) hpending, houtcomes]
    by_cases ho : o = o'
    · subst ho
      rw [if_pos rfl]
      constructor
      · rintro ⟨y, hy, hnone⟩
        cases hy
        cases hnone
      · rintro ⟨i, hm⟩
        exact (hother _ hm rfl).elim
    · rw [if_neg ho, hf.pending]
      refine exists_congr fun i => ?_
      rw [hmarkers]
      exact ⟨fun hm => hm.resolve_left fun heq => ho (congrArg Prod.snd heq).symm, Or.inr⟩
  · exact (hmarkers _).mpr (Or.inr hm)

/-- A mark by a callback in hand is for a handle that is there. -/
theorem noteMarker_endsHandles {h o : Nat} {code : ReturnCode}
    (hknown : w.handles.holds h = true) :
    EndsHandles (.completed h o code) w (w.noteMarker h code) where
  holds i := by
    unfold Arena.holds
    rw [noteMarker_get?]
    split <;> simp
  latest {i y} hy := by
    rw [noteMarker_get?] at hy
    split at hy
    next =>
      obtain ⟨x, hx, rfl⟩ := Option.map_eq_some_iff.mp hy
      exact ⟨x, hx, rfl⟩
    next => exact ⟨y, hy, rfl⟩
  marks i := by
    have hmarks : marksOf (.completed h o code) i ↔ h = i ∧ code.isOk = true := by
      constructor
      · rintro ⟨o', code', heq, hok⟩
        cases heq
        exact ⟨rfl, hok⟩
      · rintro ⟨rfl, hok⟩
        exact ⟨o, code, rfl, hok⟩
    rw [hmarks, handleAt, noteMarker_get?]
    split
    next hi =>
      subst hi
      obtain ⟨x, hx⟩ := Option.isSome_iff_exists.mp hknown
      simp [handleAt_of_get? hx, hx]
    next hi => simp [handleAt, hi]

/-- A callback in hand that is run ends its outcome as its journal reports. -/
theorem Faithful.complete {callback : Callback} (report : Completion)
    (hf : Faithful log (callback.marker?.toList ++ hand) w) :
    Faithful (log ++ callback.completedEvents report.code) hand (w.complete callback report) := by
  cases callback with
  | report label =>
      change Faithful (log ++ []) hand _
      rw [List.append_nil]
      exact hf.of_eq rfl rfl rfl
  | fence h o =>
      have hknown := (hf.known (hf.live ⟨none, List.mem_cons_self⟩)).1
      obtain ⟨houtcomes, hjournals⟩ := noteMarker_same w h report.code
      exact hf.ends rfl rfl rfl rfl (noteMarker_endsHandles hknown) houtcomes hjournals

/-- A callback in hand that is let go of ends its outcome as abandoned. -/
theorem Faithful.abandon {callback : Callback}
    (hf : Faithful log (callback.marker?.toList ++ hand) w) :
    Faithful (log ++ callback.droppedEvents) hand (w.abandon callback) := by
  cases callback with
  | report label =>
      change Faithful (log ++ []) hand _
      rw [List.append_nil]
      exact hf
  | fence h o =>
      have hno := not_marksOf (.dropped h o) fun _ _ _ => nofun
      exact hf.ends rfl rfl rfl rfl (endsHandles_of_eq rfl hno) rfl rfl

/-- A marker in hand that is refused ends its outcome with the cause. -/
theorem Faithful.refused {h o : Nat} (hf : Faithful log ((h, o) :: hand) w) (t : Thread)
    (cause : JournalError) :
    Faithful (log ++ [.refused h o cause]) hand (w.refuseMarker t o cause) := by
  have hno := not_marksOf (.refused h o cause) fun _ _ _ => nofun
  cases cause with
  | interrupted =>
      change Faithful _ _ ((({ w with interrupts := w.interrupts.raise t } : Host).count
        (.fenceLogFailures .interrupted) 1).settle o (.error .interrupted))
      exact hf.ends rfl rfl rfl rfl (endsHandles_of_eq rfl hno) rfl rfl
  | shutDown =>
      change Faithful _ _ ((w.count (.fenceLogFailures .journal) 1).settle o
        (.error (.journal .shutDown)))
      exact hf.ends rfl rfl rfl rfl (endsHandles_of_eq rfl hno) rfl rfl

end Host

end FencedLedger
