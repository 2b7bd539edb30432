import FencedLedger.Proofs.FenceDecisions
import FencedLedger.Proofs.JournalSteps

/-!
# What fencing changes

Fencing appends markers and runs their callbacks. It touches the fenced bits of
the store, the fencing state of handles, outcomes and journals. A handle for
which a marker was decided has its ledger fenced, whichever path led to the
journal.
-/

namespace FencedLedger

/-- Whether the append of a marker was ever decided on for a handle. -/
def Handle.started (x : Handle) : Bool := x.latest.isSome

namespace Host

variable {w w' w'' : Host}

/-- Of the store only fenced bits are set, caches and readers stay as they are,
and a handle that a marker is newly decided for has its ledger fenced. -/
structure Fences (w w' : Host) : Prop where
  background : Background w w'
  store : w.store.OnlyFences w'.store
  readers : w'.readers = w.readers
  caches : w'.caches = w.caches
  observers : w'.observers = w.observers
  next : w'.handles.next = w.handles.next
  absent : ∀ {h}, w.handles.get? h = none → w'.handles.get? h = none
  bound : ∀ {h x}, w.handles.get? h = some x →
    ∃ y, w'.handles.get? h = some y ∧ y.ledger = x.ledger ∧ y.key = x.key ∧
      (x.started = true → y.started = true) ∧
      (y.started = true → x.started = true ∨ w'.store.holdsFenced x.ledger = true)

/-- Changes of outcomes, journals, interrupts and counts are no concern of
`Fences`. -/
theorem fences_of_eq (hbackground : Background w w') (hstore : w'.store = w.store)
    (hhandles : w'.handles = w.handles) (hreaders : w'.readers = w.readers)
    (hcaches : w'.caches = w.caches) (hobservers : w'.observers = w.observers) :
    Fences w w' where
  background := hbackground
  store := hstore ▸ .refl w.store
  readers := hreaders
  caches := hcaches
  observers := hobservers
  next := by rw [hhandles]
  absent hnone := by rwa [hhandles]
  bound {_ x} hx := ⟨x, by rwa [hhandles], rfl, rfl, id, Or.inl⟩

theorem Idle.fences (h : Idle w w') : Fences w w' :=
  fences_of_eq h.background h.store h.handles h.readers h.caches h.observers

theorem Fences.refl (w : Host) : Fences w w := (Idle.refl w).fences

theorem Fences.trans (h : Fences w w') (h' : Fences w' w'') : Fences w w'' where
  background := h.background.trans h'.background
  store := h.store.trans h'.store
  readers := h'.readers.trans h.readers
  caches := h'.caches.trans h.caches
  observers := h'.observers.trans h.observers
  next := h'.next.trans h.next
  absent hnone := h'.absent (h.absent hnone)
  bound hx := by
    obtain ⟨y, hy, hledger, hkey, hstays, hnew⟩ := h.bound hx
    obtain ⟨z, hz, hledger', hkey', hstays', hnew'⟩ := h'.bound hy
    refine ⟨z, hz, hledger'.trans hledger, hkey'.trans hkey, hstays' ∘ hstays, ?_⟩
    -- a bit that the first part set is not cleared by the second
    intro hstarted
    rcases hnew' hstarted with hbefore | hfenced
    · exact (hnew hbefore).imp_right (h'.store.fenced _)
    · exact Or.inr (hledger ▸ hfenced)

/-- A handle may start an append only if its ledger is fenced by then. -/
theorem modifyHandle_fences (w : Host) (h : Nat) (f : Handle → Handle)
    (hledger : ∀ x, (f x).ledger = x.ledger) (hkey : ∀ x, (f x).key = x.key)
    (hstays : ∀ x, x.started = true → (f x).started = true)
    (hnew : ∀ x, w.handles.get? h = some x → (f x).started = true →
      x.started = true ∨ w.store.holdsFenced x.ledger = true) :
    Fences w (w.modifyHandle h f) where
  background := .of_eq rfl rfl rfl
  store := .refl w.store
  readers := rfl
  caches := rfl
  observers := rfl
  next := w.handles.next_modify h f
  absent {h'} hnone := by
    change (w.handles.modify h f).get? h' = none
    rw [Arena.get?_modify, hnone]
    simp
  bound {h' x} hx := by
    change ∃ y, (w.handles.modify h f).get? h' = some y ∧ _
    rw [Arena.get?_modify, hx]
    split
    next heq =>
      subst heq
      exact ⟨f x, rfl, hledger x, hkey x, hstays x, hnew x hx⟩
    next => exact ⟨x, rfl, rfl, rfl, id, Or.inl⟩

/-! ### The end of an append -/

/-- Noting the end of a marker's append marks its handle if it succeeded, and
leaves the other handles alone. -/
theorem noteMarker_get? (w : Host) (h : Nat) (code : ReturnCode) (i : Nat) :
    (w.noteMarker h code).handles.get? i =
      if h = i then
        (w.handles.get? i).map fun x => { x with persisted := x.persisted || code.isOk }
      else w.handles.get? i := by
  unfold noteMarker
  split
  next hok =>
    unfold markPersisted
    split
    next hmarked =>
      split
      next hi =>
        subst hi
        cases hx : w.handles.get? h with
        | none => rfl
        | some x =>
            rw [handleAt_of_get? hx] at hmarked
            simp [hok, ← hmarked]
      next => rfl
    next =>
      change (w.handles.modify h _).get? i = _
      simp [Arena.get?_modify, hok]
  next hfailed =>
    change w.handles.get? i = _
    simp [hfailed]

theorem outcomeAt_settle (w : Host) (o : Nat) (r : FenceResult) (o' : Nat) :
    (w.settle o r).outcomeAt o' =
      if o = o' then ((w.outcomes.get? o').map (Outcome.settle · r)).getD default
      else w.outcomeAt o' := by
  rw [outcomeAt]
  change ((w.outcomes.modify o _).get? o').getD default = _
  rw [Arena.get?_modify]
  split <;> rfl

theorem noteMarker_same (w : Host) (h : Nat) (code : ReturnCode) :
    (w.noteMarker h code).outcomes = w.outcomes ∧ (w.noteMarker h code).journals = w.journals := by
  unfold noteMarker markPersisted
  split
  next => split <;> exact ⟨rfl, rfl⟩
  next => exact ⟨rfl, rfl⟩

theorem settle_fences (w : Host) (o : Nat) (r : FenceResult) : Fences w (w.settle o r) :=
  fences_of_eq (.of_eq rfl rfl rfl) rfl rfl rfl rfl rfl

/-- A mark may be set on a handle that has started an append. -/
theorem markPersisted_fences (w : Host) (h : Nat) : Fences w (w.markPersisted h) := by
  unfold markPersisted
  split
  next => exact .refl w
  next =>
    refine Fences.trans ?_ (count_idle _ _ _).fences
    exact modifyHandle_fences w h _ (fun _ => rfl) (fun _ => rfl) (fun _ hx => hx)
      fun _ _ hx => Or.inl hx

theorem noteMarker_fences (w : Host) (h : Nat) (code : ReturnCode) :
    Fences w (w.noteMarker h code) := by
  unfold noteMarker
  split
  next => exact markPersisted_fences w h
  next => exact (count_idle w _ _).fences

theorem complete_fences (w : Host) (callback : Callback) (report : Completion) :
    Fences w (w.complete callback report) := by
  cases callback with
  | fence h o => exact (noteMarker_fences w h report.code).trans (settle_fences _ o _)
  | report label => exact (emit_idle w rfl).fences

theorem abandon_fences (w : Host) (callback : Callback) : Fences w (w.abandon callback) := by
  cases callback with
  | fence h o => exact settle_fences w o _
  | report label => exact .refl w

/-! ### Fence calls -/

/-- The request to fence sets one bit and clears none. -/
theorem SetsBit.fences {h : Nat} (hsets : SetsBit h w w') (hhandles : w'.handles = w.handles) :
    Fences w w' where
  background := hsets.background
  store := hsets.store
  readers := hsets.readers
  caches := hsets.caches
  observers := hsets.observers
  next := by rw [hhandles]
  absent hnone := by rwa [hhandles]
  bound {_ x} hx := ⟨x, by rwa [hhandles], rfl, rfl, id, Or.inl⟩

/-- The bit is set before the marker is decided on. -/
theorem PutsUp.fences {h : Nat} (hputs : PutsUp h w w') (hsets : SetsBit h w w') :
    Fences w w' := by
  have hbit : Fences w { w' with handles := w.handles } :=
    SetsBit.fences ⟨hsets.background.congr rfl rfl, hsets.store, hsets.fenced, hsets.journals,
      hsets.readers, hsets.caches, hsets.observers⟩ rfl
  have hput : w' = ({ w' with handles := w.handles } : Host).modifyHandle h
      fun handle => { handle with latest := some w.outcomes.next } := by
    unfold modifyHandle
    rw [← hputs.handles]
  rw [hput]
  refine hbit.trans ?_
  refine modifyHandle_fences _ h _ (fun _ => rfl) (fun _ => rfl) (fun _ _ => rfl) ?_
  intro x hx _
  have hat : w.handleAt h = x := handleAt_of_get? hx
  exact Or.inr (hat ▸ hsets.fenced)

/-- A decision fences the ledger before it starts the append. -/
theorem Decides.fences {h : Nat} {r : Except HandleError FenceDecision × Host}
    (hdecides : Decides h w r) : Fences w r.2 := by
  cases hdecides with
  | failed e w' idle => exact idle.fences
  | first w' sets clear puts => exact puts.fences sets
  | retry w' sets fenced unmarked idle puts => exact puts.fences sets
  | inFlight o w' sets fenced unmarked underWay handles outcomes => exact sets.fences handles
  | alreadyPersisted w' sets fenced marked handles outcomes => exact sets.fences handles

theorem refuseMarker_fences (w : Host) (t : Thread) (o : Nat) (cause : JournalError) :
    Fences w (w.refuseMarker t o cause) := by
  unfold refuseMarker
  split <;> exact fences_of_eq (.of_eq rfl rfl rfl) rfl rfl rfl rfl rfl

/-- Fencing is made of steps that all change what fencing may change. -/
theorem fences_holdsOfFencing : HoldsOfFencing Fences where
  refl := .refl
  trans := .trans
  journals _ _ := fences_of_eq (.of_eq rfl rfl rfl) rfl rfl rfl rfl rfl
  interrupts _ _ := fences_of_eq (.of_eq rfl rfl rfl) rfl rfl rfl rfl rfl
  complete := complete_fences
  abandon := abandon_fences
  decide w h := (decideFence_decides w h).fences
  refuse := refuseMarker_fences
  refenced w _ := (emit_idle w rfl).fences

theorem submit_fences (path : JournalPath) (w : Host) (t : Thread) (entry : Bytes) (ack : Bool)
    (callback : Callback) : Fences w (submit path w t entry ack callback).2 :=
  fences_holdsOfFencing.submissions.submit path w t entry ack callback

theorem submitMarker_fences (w : Host) (path : JournalPath) (t : Thread) (h o : Nat) :
    Fences w (w.submitMarker (submit path) t h o) :=
  fences_holdsOfFencing.submissions.submitMarker (submit_fences path) w t h o

theorem fence_fences (w : Host) (path : JournalPath) (t : Thread) (handle : HandleRef) :
    Fences w (w.fence path t handle).2 :=
  fences_holdsOfFencing.submissions.fenceThrough (submit_fences path) w t handle

end Host

end FencedLedger
