import FencedLedger.Proofs.FenceCalls

/-!
# Appends are made when they are due

A fence call of a handle appends a marker exactly when no append of the handle
set the durable mark and none has an open outcome. The first path looks at
neither: it relies on the fenced bit, which is set with the first append and
stays set while the ledger lasts. The invariant ties the bit, the latest outcome
and the mark to the appends that were decided on. Nothing says that an append
ever ends.
-/

namespace FencedLedger

/-- The outcomes that the calls appended for, in the order of the decisions. -/
def FenceCall.appended (calls : List FenceCall) : List Nat :=
  (calls.filter fun c => Host.appends c.path).map FenceCall.outcome

namespace FenceCall

variable {calls : List FenceCall} {c c' : FenceCall} {i : Nat}

theorem appended_concat (calls : List FenceCall) (c : FenceCall) :
    appended (calls ++ [c]) =
      appended calls ++ if Host.appends c.path then [c.outcome] else [] := by
  unfold appended
  rw [List.filter_append, List.map_append]
  congr 1
  cases happends : Host.appends c.path <;> simp [happends]

theorem mem_appended_of_mem (hc : c ∈ calls) (happends : Host.appends c.path = true) :
    c.outcome ∈ appended calls :=
  List.mem_map_of_mem (List.mem_filter.mpr ⟨hc, happends⟩)

/-- A call that moves on keeps its place among those that append. -/
theorem appended_set (hc : calls[i]? = some c) (hpath : c'.path = c.path)
    (houtcome : c'.outcome = c.outcome) : appended (calls.set i c') = appended calls := by
  induction calls generalizing i with
  | nil => rfl
  | cons first calls ih =>
      cases i with
      | zero =>
          obtain rfl : first = c := by simpa using hc
          simp only [appended, List.set_cons_zero, List.filter_cons, hpath]
          split <;> simp [houtcome]
      | succ i =>
          have hrest := ih (by simpa using hc)
          simp only [appended, List.set_cons_succ, List.filter_cons] at hrest ⊢
          split <;> simp [hrest]

/-- A call that moves on may set the mark, and never takes it back. -/
theorem any_marked_set (hc : calls[i]? = some c) (hstays : c.marked = true → c'.marked = true) :
    (calls.set i c').any marked = (calls.any marked || c'.marked && !c.marked) := by
  induction calls generalizing i with
  | nil => simp at hc
  | cons first calls ih =>
      cases i with
      | zero =>
          obtain rfl : first = c := by simpa using hc
          cases hfirst : first.marked <;> simp_all [Bool.or_comm]
      | succ i =>
          have hrest := ih (by simpa using hc)
          simp [hrest, Bool.or_assoc]

end FenceCall

namespace Host

variable {w w' : Host} {h : Nat} {x y : Handle} {os : List Nat}

/-- The appends that were decided on for a handle, by their outcomes. Only the
last one may be open, and the handle knows it as its latest. -/
structure Tracks (w : Host) (x : Handle) (os : List Nat) : Prop where
  fenced : os ≠ [] →
    w.store.keyOf? x.ledger = none ∨ w.store.holdsFenced x.ledger = true
  known : ∀ o ∈ os, o < w.outcomes.next
  distinct : os.Nodup
  latest : ∀ o, x.latest = some o → o ∈ os
  opened : ∀ o ∈ os, (w.outcomeAt o).isDone = false → x.latest = some o

/-- What the host knows of the appends of a handle outlasts whatever leaves the handle
alone. -/
theorem Tracks.lasts (ht : Tracks w x os) (h : Lasts x.ledger w w') (hledger : y.ledger = x.ledger)
    (hlatest : y.latest = x.latest) : Tracks w' y os where
  fenced hsome := by
    rw [hledger]
    rcases ht.fenced hsome with hgone | hfenced
    · exact Or.inl (h.gone hgone)
    · exact h.fenced hfenced
  known o ho := Nat.lt_of_lt_of_le (ht.known o ho) h.next
  distinct := ht.distinct
  latest o ho := ht.latest o (hlatest ▸ ho)
  opened o ho hopen := by
    rw [hlatest]
    apply ht.opened o ho
    cases hdone : (w.outcomeAt o).isDone with
    | false => rfl
    | true =>
        rw [h.done o hdone] at hopen
        cases hopen

/-- A new append may only be put up when all earlier ones have ended. -/
theorem Tracks.puts (ht : Tracks w x os) (hdone : ∀ o ∈ os, (w.outcomeAt o).isDone = true)
    (hputs : PutsUp h w w') (hfenced : w'.store.holdsFenced x.ledger = true) :
    Tracks w' { x with latest := some w.outcomes.next } (os ++ [w.outcomes.next]) where
  fenced _ := Or.inr hfenced
  known o ho := by
    rw [hputs.outcomes, Arena.next_add]
    rcases List.mem_append.mp ho with hold | hnew
    · exact Nat.lt_succ_of_lt (ht.known o hold)
    · rw [List.mem_singleton.mp hnew]
      exact Nat.lt_succ_self _
  distinct := by
    rw [List.nodup_append]
    refine ⟨ht.distinct, by simp, ?_⟩
    intro o ho o' hnew
    rw [List.mem_singleton.mp hnew]
    exact Nat.ne_of_lt (ht.known o ho)
  latest o ho := by
    obtain rfl := Option.some.inj ho
    simp
  opened o ho hopen := by
    rcases List.mem_append.mp ho with hold | hnew
    · rw [outcomeAt_add hputs.outcomes, if_neg (Nat.ne_of_lt (ht.known o hold)),
        hdone o hold] at hopen
      cases hopen
    · rw [List.mem_singleton.mp hnew]

/-- The bit of a ledger that the store holds is set with the first append. -/
theorem Tracks.none_of_clear (ht : Tracks w x os) (hclear : w.store.holdsFenced x.ledger = false)
    (hheld : w.store.keyOf? x.ledger ≠ none) : os = [] := by
  cases os with
  | nil => rfl
  | cons o os =>
      rcases ht.fenced (by simp) with hgone | hfenced
      · exact absurd hgone hheld
      · rw [hclear] at hfenced
        cases hfenced

theorem latest_of_underWay (hx : w.handles.get? h = some x) {o : Nat}
    (hunder : w.underWay? h = some o) :
    x.latest = some o ∧ (w.outcomeAt o).isDone = false := by
  rw [underWay?, handleAt_of_get? hx, Option.filter_eq_some_iff] at hunder
  simpa using hunder

/-- When nothing is under way, every append has ended. -/
theorem Tracks.done_of_idle (ht : Tracks w x os) (hx : w.handles.get? h = some x)
    (hidle : w.underWay? h = none) : ∀ o ∈ os, (w.outcomeAt o).isDone = true := by
  intro o ho
  cases hdone : (w.outcomeAt o).isDone with
  | true => rfl
  | false =>
      rw [underWay?, handleAt_of_get? hx, ht.opened o ho hdone] at hidle
      simp [hdone] at hidle

end Host

namespace Fencing

open FenceCall (appended)

variable {h : Nat} {x y : Handle} {s s' : Fencing} {w' : Host} {d : Host.FenceDecision}

/-- The invariant of the calls that fence one handle. -/
structure Exact (h : Nat) (x : Handle) (s : Fencing) : Prop where
  held : s.host.handles.get? h = some x
  tracks : s.host.Tracks x (appended s.calls)
  marked : x.persisted = s.calls.any FenceCall.marked
  proper : ∀ c ∈ s.calls, c.Proper

/-- An append is due when the mark is unset and every earlier append has ended. -/
theorem Exact.appendDue_iff (he : Exact h x s) :
    s.appendDue = true ↔
      x.persisted = false ∧ ∀ o ∈ appended s.calls, (s.host.outcomeAt o).isDone = true := by
  rw [he.marked, appendDue, List.all_eq_true, List.any_eq_false]
  constructor
  · intro hall
    refine ⟨fun c hc => ?_, fun o ho => ?_⟩
    · simpa using (Bool.and_eq_true_iff.mp (hall c hc)).1
    · obtain ⟨c, hc, rfl⟩ := List.mem_map.mp ho
      obtain ⟨hc, happends⟩ := List.mem_filter.mp hc
      simpa [FenceCall.outstanding, happends] using (Bool.and_eq_true_iff.mp (hall c hc)).2
  · rintro ⟨hclear, hdone⟩ c hc
    cases happends : Host.appends c.path with
    | false => simp [hclear c hc, FenceCall.outstanding, happends]
    | true =>
        have hended := hdone c.outcome (FenceCall.mem_appended_of_mem hc happends)
        simp [hclear c hc, FenceCall.outstanding, hended]

/-- A handle for which nothing was appended is not marked. -/
theorem Exact.unmarked_of_none (he : Exact h x s) (hnone : appended s.calls = []) :
    x.persisted = false := by
  rw [he.marked, List.any_eq_false]
  intro c hc hmarked
  have hproper := he.proper c hc
  cases happends : Host.appends c.path with
  | true =>
      have hmem := FenceCall.mem_appended_of_mem hc happends
      simp [hnone] at hmem
  | false =>
      obtain ⟨-, hcallback, -⟩ := hproper.idle (hproper.due ▸ happends)
      simp [FenceCall.marked, hcallback] at hmarked

/-! ### Decisions -/

/-- Each path is taken when it should be. The first path finds the bit clear, so
nothing was appended before it. -/
theorem Exact.path_due (he : Exact h x s) (hdecides : Host.Decides h s.host (.ok d, w')) :
    Host.appends d.path = s.appendDue := by
  have hat := Host.handleAt_of_get? he.held
  cases hdecides with
  | first w' sets clear puts =>
      rw [hat] at clear
      -- the bit is set now, so the ledger is there
      have hheld : s.host.store.keyOf? x.ledger ≠ none := by
        intro hgone
        have hfenced := sets.fenced
        rw [hat, Store.holdsFenced_of_absent ((sets.store.keys _).trans hgone)] at hfenced
        cases hfenced
      have hnone := he.tracks.none_of_clear clear hheld
      exact (he.appendDue_iff.mpr ⟨he.unmarked_of_none hnone, by simp [hnone]⟩).symm
  | retry w' sets fenced unmarked idle puts =>
      rw [hat] at unmarked
      exact (he.appendDue_iff.mpr ⟨unmarked, he.tracks.done_of_idle he.held idle⟩).symm
  | inFlight o w' sets fenced unmarked underWay handles outcomes =>
      obtain ⟨hlatest, hopen⟩ := Host.latest_of_underWay he.held underWay
      refine (Bool.eq_false_iff.mpr fun hdue => ?_).symm
      have hdone := (he.appendDue_iff.mp hdue).2 o (he.tracks.latest o hlatest)
      rw [hopen] at hdone
      cases hdone
  | alreadyPersisted w' sets fenced marked handles outcomes =>
      rw [hat] at marked
      refine (Bool.eq_false_iff.mpr fun hdue => ?_).symm
      rw [(he.appendDue_iff.mp hdue).1] at marked
      cases marked

/-- The invariant after a call was decided on. -/
theorem Exact.concat (he : Exact h x s) (hy : w'.handles.get? h = some y)
    (hpersisted : y.persisted = x.persisted) (hdue : Host.appends d.path = s.appendDue)
    (htracks : w'.Tracks y (appended s.calls ++ if Host.appends d.path then [d.outcome] else [])) :
    Exact h y ⟨w', s.calls ++ [.decided d s.appendDue]⟩ where
  held := hy
  tracks := by
    rw [FenceCall.appended_concat]
    exact htracks
  marked := by
    simp [hpersisted, he.marked, FenceCall.decided, FenceCall.marked]
  proper c hc := by
    rcases List.mem_append.mp hc with hold | hnew
    · exact he.proper c hold
    · rw [List.mem_singleton.mp hnew]
      exact FenceCall.decided_proper hdue

/-- The first path and a retry put up an outcome of their own, the other paths do not. -/
theorem Exact.decide (he : Exact h x s) (hdecides : Host.Decides h s.host (.ok d, w')) :
    ∃ y, Exact h y ⟨w', s.calls ++ [.decided d s.appendDue]⟩ := by
  have hdue := he.path_due hdecides
  have hat := Host.handleAt_of_get? he.held
  have hlasts : Host.Lasts x.ledger s.host w' := hdecides.lasts
  -- both paths that append put up an outcome, the latest from now on
  have hput : ∀ {path}, Host.appends path = true → Host.SetsBit h s.host w' →
      Host.PutsUp h s.host w' → d = ⟨path, s.host.outcomes.next⟩ →
      ∃ y, Exact h y ⟨w', s.calls ++ [.decided d s.appendDue]⟩ := by
    rintro path happends sets puts rfl
    have hfenced := sets.fenced
    rw [hat] at hfenced
    have hdone := (he.appendDue_iff.mp (hdue.symm.trans happends)).2
    refine ⟨{ x with latest := some s.host.outcomes.next }, he.concat ?_ rfl hdue ?_⟩
    · rw [puts.handles, Arena.get?_modify, if_pos rfl, he.held]
      rfl
    · simpa [happends] using he.tracks.puts hdone puts hfenced
  cases hdecides with
  | first w' sets clear puts => exact hput rfl sets puts rfl
  | retry w' sets fenced unmarked idle puts => exact hput rfl sets puts rfl
  | inFlight o w' sets fenced unmarked underWay handles outcomes =>
      refine ⟨x, he.concat (handles ▸ he.held) rfl hdue ?_⟩
      simpa [Host.appends] using he.tracks.lasts hlasts rfl rfl
  | alreadyPersisted w' sets fenced marked handles outcomes =>
      refine ⟨x, he.concat (handles ▸ he.held) rfl hdue ?_⟩
      simpa [Host.appends] using he.tracks.lasts hlasts rfl rfl

/-! ### Other steps -/

theorem Exact.elsewhere (he : Exact h x s) (hx : w'.handles.get? h = some x)
    (hlasts : Host.Lasts x.ledger s.host w') : Exact h x ⟨w', s.calls⟩ where
  held := hx
  tracks := he.tracks.lasts hlasts rfl rfl
  marked := he.marked
  proper := he.proper

/-- A step of one call keeps the invariant, whatever the others are about. -/
theorem Exact.call {i : Nat} {c c' : FenceCall} (he : Exact h x s) (hcall : s.calls[i]? = some c)
    (hstep : c.Step h s.host w' c') : ∃ y, Exact h y ⟨w', s.calls.set i c'⟩ := by
  have hproper := he.proper c (List.mem_of_getElem? hcall)
  have hmoves := hstep.moves hproper he.held
  refine ⟨_, hmoves.handle, ?_, ?_, ?_⟩
  · rw [FenceCall.appended_set hcall hmoves.path hmoves.outcome]
    exact he.tracks.lasts hmoves.lasts rfl rfl
  · rw [FenceCall.any_marked_set hcall hmoves.stays, he.marked]
  · intro c'' hc''
    rcases List.mem_or_eq_of_mem_set hc'' with hold | rfl
    · exact he.proper c'' hold
    · exact hstep.proper hproper

/-- Every step keeps the invariant. -/
theorem Exact.step (he : Exact h x s) (hstep : Step h s s') : ∃ y, Exact h y s' := by
  cases hstep with
  | decide hdecide =>
      have hdecides := Host.decideFence_decides s.host h
      rw [hdecide] at hdecides
      exact he.decide hdecides
  | fail hdecide =>
      have hdecides := Host.decideFence_decides s.host h
      rw [hdecide] at hdecides
      have hlasts : Host.Lasts x.ledger s.host _ := hdecides.lasts
      cases hdecides with
      | failed e w' idle => exact ⟨x, he.elsewhere (idle.handles ▸ he.held) hlasts⟩
  | call hcall hstep => exact he.call hcall hstep
  | elsewhere hother =>
      obtain ⟨hx, hlasts⟩ := hother.spec he.held
      exact ⟨x, he.elsewhere hx hlasts⟩

/-- The invariant holds of whatever the steps lead to. -/
theorem Reachable.exact (hreach : Reachable h s) : ∃ x, Exact h x s := by
  induction hreach with
  | start hmade =>
      refine ⟨_, hmade, ⟨nofun, nofun, List.nodup_nil, ?_, nofun⟩, rfl, nofun⟩
      intro o hlatest
      cases hlatest
  | step hreach hstep ih =>
      obtain ⟨x, he⟩ := ih
      exact he.step hstep

/-! ### Appends -/

theorem Exact.outstanding_latest (he : Exact h x s) {c : FenceCall} (hc : c ∈ s.calls)
    (hopen : c.outstanding s.host = true) : x.latest = some c.outcome := by
  obtain ⟨happends, hpending⟩ := Bool.and_eq_true_iff.mp hopen
  refine he.tracks.opened _ (FenceCall.mem_appended_of_mem hc happends) ?_
  simpa using hpending

/-- Open appends are apart, and all are the latest. -/
theorem Exact.outstanding_le_one (he : Exact h x s) :
    (s.calls.filter (FenceCall.outstanding s.host)).length ≤ 1 := by
  have hsub : ((s.calls.filter (FenceCall.outstanding s.host)).map FenceCall.outcome).Sublist
      (appended s.calls) := by
    have hfilter : s.calls.filter (FenceCall.outstanding s.host) =
        (s.calls.filter fun c => Host.appends c.path).filter
          fun c => !(s.host.outcomeAt c.outcome).isDone := by
      rw [List.filter_filter]
      congr 1
      funext c
      exact Bool.and_comm _ _
    rw [hfilter]
    exact List.filter_sublist.map FenceCall.outcome
  have hdistinct := hsub.nodup he.tracks.distinct
  have hlatest : ∀ c ∈ s.calls.filter (FenceCall.outstanding s.host),
      x.latest = some c.outcome := by
    intro c hc
    obtain ⟨hc, hopen⟩ := List.mem_filter.mp hc
    exact he.outstanding_latest hc hopen
  generalize s.calls.filter (FenceCall.outstanding s.host) = opened at hdistinct hlatest
  -- two open appends would share the latest outcome
  match opened with
  | [] | [_] => simp
  | c :: c' :: rest =>
      have hc := hlatest c (by simp)
      have hc' := hlatest c' (by simp)
      rw [hc] at hc'
      simp [Option.some.inj hc'] at hdistinct

/-- A call that finds an append open and the mark unset shares the append. -/
theorem Exact.shares (he : Exact h x s) (hdecides : Host.Decides h s.host (.ok d, w'))
    {c : FenceCall} (hc : c ∈ s.calls) (hopen : c.outstanding s.host = true)
    (hunmarked : x.persisted = false) : d = ⟨.inFlight, c.outcome⟩ := by
  have hdue := he.path_due hdecides
  have hnot : s.appendDue ≠ true := by
    intro hdue
    have hclear := List.all_eq_true.mp hdue c hc
    simp [hopen] at hclear
  cases hdecides with
  | first w' sets clear puts => exact absurd hdue.symm hnot
  | retry w' sets fenced unmarked idle puts => exact absurd hdue.symm hnot
  | inFlight o w' sets fenced unmarked underWay handles outcomes =>
      have hlatest := (Host.latest_of_underWay he.held underWay).1
      rw [he.outstanding_latest hc hopen] at hlatest
      rw [Option.some.inj hlatest]
  | alreadyPersisted w' sets fenced marked handles outcomes =>
      rw [Host.handleAt_of_get? he.held, hunmarked] at marked
      cases marked

/-- A decision leaves alone what the handle has its marker made of. -/
theorem Exact.handed (he : Exact h x s) (hdecides : Host.Decides h s.host (.ok d, w')) :
    (w'.handleAt h).ledger = x.ledger ∧ (w'.handleAt h).ackBeforeSync = x.ackBeforeSync := by
  have hput : Host.PutsUp h s.host w' → w'.handles.get? h =
      some { x with latest := some s.host.outcomes.next } := by
    intro puts
    rw [puts.handles, Arena.get?_modify, if_pos rfl, he.held]
    rfl
  have hkept : w'.handles = s.host.handles → w'.handles.get? h = some x := by
    intro hsame
    rw [hsame, he.held]
  cases hdecides with
  | first w' sets clear puts | retry w' sets fenced unmarked idle puts =>
      rw [Host.handleAt_of_get? (hput puts)]
      exact ⟨rfl, rfl⟩
  | inFlight o w' sets fenced unmarked underWay handles
  | alreadyPersisted w' sets fenced marked handles =>
      rw [Host.handleAt_of_get? (hkept handles)]
      exact ⟨rfl, rfl⟩

/-- A call that finds the handle marked answers that the marker is durable. -/
theorem Exact.found (he : Exact h x s) (hdecides : Host.Decides h s.host (.ok d, w'))
    (hmarked : x.persisted = true) : w'.outcomeAt d.outcome = .settled (.ok true) := by
  have hdue := he.path_due hdecides
  have hnot : s.appendDue ≠ true := by
    intro hdue
    rw [(he.appendDue_iff.mp hdue).1] at hmarked
    cases hmarked
  have hat := Host.handleAt_of_get? he.held
  cases hdecides with
  | first w' sets clear puts => exact absurd hdue.symm hnot
  | retry w' sets fenced unmarked idle puts => exact absurd hdue.symm hnot
  | inFlight o w' sets fenced unmarked underWay handles outcomes =>
      rw [hat, hmarked] at unmarked
      cases unmarked
  | alreadyPersisted w' sets fenced marked handles outcomes =>
      rw [Host.outcomeAt_add outcomes, if_pos rfl]

/-- At every moment: a call hands over a new marker, once, exactly when an append
was due as it was decided on; at most one append is open; and the handle is
marked exactly when one of its appends set the mark. A call that is decided on
now appends exactly when an append is due now: it submits the fence marker of the
ledger, with a callback for the outcome that it answers. Else it shares the open
append, or answers that the marker is durable when the handle is marked. -/
theorem fence_call_appends_iff_due (hreach : Reachable h s) :
    (∀ c ∈ s.calls,
      (c.due = true →
        c.frame = .decided ∧ c.submissions = 0 ∨ c.frame ≠ .decided ∧ c.submissions = 1) ∧
      (c.due = false → c.submissions = 0)) ∧
    (s.calls.filter (FenceCall.outstanding s.host)).length ≤ 1 ∧
    (s.host.handleAt h).persisted = s.calls.any FenceCall.marked ∧
    ∀ (d : Host.FenceDecision) (w' : Host), s.host.decideFence h = (.ok d, w') →
      (∀ (submit : Host.Submit) (t : Thread), s.host.fenceWith submit t h =
        (.ok d.outcome,
          if s.appendDue then
            match submit w' t (Entry.fenceMarker (s.host.handleAt h).ledger)
              (s.host.handleAt h).ackBeforeSync (.fence h d.outcome) with
            | (.ok (), taken) => taken
            | (.error cause, refused) => refused.refuseMarker t d.outcome cause
          else w')) ∧
      ((s.host.handleAt h).persisted = false → ∀ c ∈ s.calls, c.outstanding s.host = true →
        d = ⟨.inFlight, c.outcome⟩) ∧
      ((s.host.handleAt h).persisted = true → w'.outcomeAt d.outcome = .settled (.ok true)) := by
  obtain ⟨x, he⟩ := hreach.exact
  have hat := Host.handleAt_of_get? he.held
  rw [hat]
  refine ⟨fun c hc => ?_, he.outstanding_le_one, he.marked, fun d w' hdecide => ?_⟩
  · exact ⟨(he.proper c hc).submitted, fun hidle => ((he.proper c hc).idle hidle).2.2⟩
  · have hdecides := Host.decideFence_decides s.host h
    rw [hdecide] at hdecides
    refine ⟨fun submit t => ?_, fun hunmarked c hc hopen => ?_, he.found hdecides⟩
    · obtain ⟨hledger, hack⟩ := he.handed hdecides
      rw [Host.fenceWith, hdecide, ← he.path_due hdecides, ← hledger, ← hack]
      rfl
    · exact he.shares hdecides hc hopen hunmarked

/-- A host that opened one ledger. -/
def opened : Host :=
  (Host.start none).run [.createCache .standard, .openWritable 0 ⟨1⟩ [0x6b] false]

/-- The journal set the mark for the first append and did not settle its outcome
yet. -/
def marking : Fencing where
  host := (opened.decideFence 0).2.noteMarker 0 .ok
  calls := [⟨.first, 0, true, 1, .accepted, .noted .ok⟩]

/-- Four steps lead there: a decision, the submission, its acceptance, and the mark. -/
theorem marking_reachable : Reachable 0 marking := by
  have hstart : Reachable 0 ⟨opened, []⟩ := .start (l := ⟨1⟩) rfl
  have hdecided := hstart.step (.decide (d := ⟨.first, 0⟩) (Prod.ext rfl rfl))
  have hhanded := hdecided.step (.call (i := 0) rfl (.submit rfl))
  have haccepted := hhanded.step (.call (i := 0) rfl (.accept rfl nofun))
  exact haccepted.step (.call (i := 0) rfl (.note .ok rfl (Or.inr rfl)))

/-- A call between the two steps of a completion answers a settled outcome of
its own, while the outcome of the append is open. -/
theorem found_while_open :
    marking.calls.all (FenceCall.outstanding marking.host) = true ∧
      (marking.host.decideFence 0).2.outcomeAt 1 = .settled (.ok true) := by
  have hdecisions := (fence_call_appends_iff_due marking_reachable).2.2.2
  have hanswer := hdecisions ⟨.alreadyPersisted, 1⟩ _ (Prod.ext rfl rfl)
  exact ⟨by decide, hanswer.2.2 (by decide)⟩

end Fencing

end FencedLedger
