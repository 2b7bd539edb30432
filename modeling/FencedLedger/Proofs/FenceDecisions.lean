import FencedLedger.Host.Fencing
import FencedLedger.Proofs.Calls

/-!
# How a fence call is decided

The first step of a fence call sets the fenced bit and takes one of four paths.
The bit, the durable mark of the handle and the append under way settle which.
The marker is submitted after that, by the thread that found the append due.
-/

namespace FencedLedger

namespace Host

variable {w w' : Host} {h : Nat}

/-- A decision sets the fenced bit of the handle's ledger, and leaves journals
and the handle's durable mark alone. -/
structure SetsBit (h : Nat) (w w' : Host) : Prop where
  background : Background w w'
  store : w.store.OnlyFences w'.store
  fenced : w'.store.holdsFenced (w.handleAt h).ledger = true
  journals : w'.journals = w.journals
  readers : w'.readers = w.readers
  caches : w'.caches = w.caches
  observers : w'.observers = w.observers

/-- The outcome of an append is put up, pending, and is the latest of the handle. -/
structure PutsUp (h : Nat) (w w' : Host) : Prop where
  handles : w'.handles =
    w.handles.modify h fun handle => { handle with latest := some w.outcomes.next }
  outcomes : w'.outcomes = w.outcomes.add .pending

/-- The ways in which a fence call is decided. -/
inductive Decides (h : Nat) (w : Host) : Except HandleError FenceDecision × Host → Prop where
  | failed (e : HandleError) (w' : Host) (idle : Idle w w') : Decides h w (.error e, w')
  | first (w' : Host) (sets : SetsBit h w w')
      (clear : w.store.holdsFenced (w.handleAt h).ledger = false) (puts : PutsUp h w w') :
      Decides h w (.ok ⟨.first, w.outcomes.next⟩, w')
  | retry (w' : Host) (sets : SetsBit h w w')
      (fenced : w.store.holdsFenced (w.handleAt h).ledger = true)
      (unmarked : (w.handleAt h).persisted = false) (idle : w.underWay? h = none)
      (puts : PutsUp h w w') : Decides h w (.ok ⟨.retry, w.outcomes.next⟩, w')
  | inFlight (o : Nat) (w' : Host) (sets : SetsBit h w w')
      (fenced : w.store.holdsFenced (w.handleAt h).ledger = true)
      (unmarked : (w.handleAt h).persisted = false) (underWay : w.underWay? h = some o)
      (handles : w'.handles = w.handles) (outcomes : w'.outcomes = w.outcomes) :
      Decides h w (.ok ⟨.inFlight, o⟩, w')
  | alreadyPersisted (w' : Host) (sets : SetsBit h w w')
      (fenced : w.store.holdsFenced (w.handleAt h).ledger = true)
      (marked : (w.handleAt h).persisted = true) (handles : w'.handles = w.handles)
      (outcomes : w'.outcomes = w.outcomes.add (.settled (.ok true))) :
      Decides h w (.ok ⟨.alreadyPersisted, w.outcomes.next⟩, w')

/-- Decisions are made before any journal is asked. -/
theorem Decides.journals {r : Except HandleError FenceDecision × Host} (hdecides : Decides h w r) :
    r.2.journals = w.journals := by
  cases hdecides with
  | failed e w' idle => exact idle.journals
  | first w' sets => exact sets.journals
  | retry w' sets => exact sets.journals
  | inFlight o w' sets => exact sets.journals
  | alreadyPersisted w' sets => exact sets.journals

theorem handleAt_of_handles (hhandles : w'.handles = w.handles) (h : Nat) :
    w'.handleAt h = w.handleAt h := by
  rw [handleAt, hhandles, handleAt]

theorem underWay?_of_eq (hhandles : w'.handles = w.handles) (houtcomes : w'.outcomes = w.outcomes)
    (h : Nat) : w'.underWay? h = w.underWay? h := by
  simp only [underWay?, handleAt, outcomeAt, hhandles, houtcomes]

theorem outcomeAt_add {x : Outcome} (h : w'.outcomes = w.outcomes.add x) (o : Nat) :
    w'.outcomeAt o = if o = w.outcomes.next then x else w.outcomeAt o := by
  rw [outcomeAt, h, Arena.get?_add]
  split <;> rfl

section

variable {w₁ : Host}

/-- An append is opened with an outcome of its own, which is the latest of its handle. -/
theorem openAppend_puts (hhandles : w₁.handles = w.handles)
    (houtcomes : w₁.outcomes = w.outcomes) (path : FencePath) :
    (w₁.openAppend h path).1 = ⟨path, w.outcomes.next⟩ ∧
      PutsUp h w (w₁.openAppend h path).2 := by
  refine ⟨?_, ?_, ?_⟩
  · change FenceDecision.mk path w₁.outcomes.next = _
    rw [houtcomes]
  · change w₁.handles.modify h (fun handle => { handle with latest := some w₁.outcomes.next }) = _
    rw [hhandles, houtcomes]
  · change w₁.outcomes.add .pending = _
    rw [houtcomes]

theorem SetsBit.openAppend (hsets : SetsBit h w w₁) (path : FencePath) :
    SetsBit h w (w₁.openAppend h path).2 :=
  ⟨hsets.background.congr rfl rfl, hsets.store, hsets.fenced, hsets.journals,
    hsets.readers, hsets.caches, hsets.observers⟩

end

/-- The store's answer decides first, then the mark, and then the append under way. -/
theorem decideFence_decides (w : Host) (h : Nat) : Decides h w (w.decideFence h) := by
  unfold decideFence
  split
  next e w₁ hcall => exact .failed (.store e) w₁ (call_error hcall)
  next w₁ hcall =>
    obtain ⟨hact, honly⟩ := call_ok hcall
    obtain ⟨hsteady, hnews, hfenced⟩ := Store.fence_spec hact
    have hclear : w.store.holdsFenced (w.handleAt h).ledger = false := by simpa using hnews.symm
    have hsets : SetsBit h w w₁ := ⟨honly.background, hsteady, hfenced, honly.journals,
      honly.readers, honly.caches, honly.observers⟩
    obtain ⟨hdecision, hputs⟩ := openAppend_puts (h := h) honly.handles honly.outcomes .first
    change Decides h w (.ok (w₁.openAppend h .first).1, (w₁.openAppend h .first).2)
    rw [hdecision]
    exact .first _ (hsets.openAppend .first) hclear hputs
  next w₁ hcall =>
    obtain ⟨hact, honly⟩ := call_ok hcall
    obtain ⟨hsteady, hnews, hfenced⟩ := Store.fence_spec hact
    -- what is decided next is read off the host as it was, but for the store
    have hbit : w.store.holdsFenced (w.handleAt h).ledger = true := by simpa using hnews.symm
    have hsets : SetsBit h w w₁ := ⟨honly.background, hsteady, hfenced, honly.journals,
      honly.readers, honly.caches, honly.observers⟩
    change Decides h w (.ok (w₁.decideAgain h).1, (w₁.decideAgain h).2)
    unfold decideAgain
    rw [handleAt_of_handles honly.handles h, underWay?_of_eq honly.handles honly.outcomes h]
    split
    next hmarked =>
      have hdecides := Decides.alreadyPersisted
        ((w₁.count (.fenceAttempts .alreadyPersisted) 1).addOutcome (.settled (.ok true))).2
        ⟨honly.background.congr rfl rfl, hsteady, hfenced, honly.journals, honly.readers,
          honly.caches, honly.observers⟩
        hbit hmarked honly.handles (congrArg (Arena.add · _) honly.outcomes)
      rw [← honly.outcomes] at hdecides
      exact hdecides
    next hunmarked =>
      have hunmarked : (w.handleAt h).persisted = false := by simpa using hunmarked
      split
      next o hunder =>
        exact .inFlight o _
          ⟨honly.background.congr rfl rfl, hsteady, hfenced, honly.journals, honly.readers,
            honly.caches, honly.observers⟩
          hbit hunmarked hunder honly.handles honly.outcomes
      next hidle =>
        obtain ⟨hdecision, hputs⟩ := openAppend_puts (h := h) honly.handles honly.outcomes .retry
        rw [hdecision]
        exact .retry _ (hsets.openAppend .retry) hbit hunmarked hidle hputs

end Host

end FencedLedger
