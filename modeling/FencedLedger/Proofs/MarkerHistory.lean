import FencedLedger.Proofs.FenceDecisions
import FencedLedger.Proofs.HeldCallbacks

/-!
# The history of markers

A run has a history: which fence calls put up, joined or found an outcome, and
what became of the markers that were submitted. It is read off the decisions,
the verdicts of journals and their queues, and never off an outcome. Only
journals that keep a state are described; other paths have no events here.
-/

namespace FencedLedger

/-- Something that happens to the marker of a handle, or to its outcome. -/
inductive MarkerEvent where
  /-- A fence call decided to append a marker. -/
  | opened (handle outcome : Nat)
  /-- A fence call joined the append under way. -/
  | joined (handle outcome : Nat)
  /-- A fence call found the handle marked. -/
  | found (handle outcome : Nat)
  /-- The journal refused the marker. -/
  | refused (handle outcome : Nat) (cause : JournalError)
  /-- The journal reported on the marker. -/
  | completed (handle outcome : Nat) (code : ReturnCode)
  /-- The journal let go of the marker's callback. -/
  | dropped (handle outcome : Nat)
  deriving DecidableEq, Repr

/-- The handle and the outcome of a marker's callback. -/
def Callback.marker? : Callback → Option (Nat × Nat)
  | .fence h o => some (h, o)
  | .report _ => none

/-- The event of running a callback. -/
def Callback.completedEvents (code : ReturnCode) (callback : Callback) : List MarkerEvent :=
  callback.marker?.toList.map fun m => .completed m.1 m.2 code

/-- The event of letting go of a callback. -/
def Callback.droppedEvents (callback : Callback) : List MarkerEvent :=
  callback.marker?.toList.map fun m => .dropped m.1 m.2

/-- What becomes of an outcome whose marker is refused. -/
def JournalError.fenceError : JournalError → FenceError
  | .interrupted => .interrupted
  | cause => .journal cause

namespace MarkerEvent

def handle : MarkerEvent → Nat
  | opened h _ | joined h _ | found h _ | refused h _ _ | completed h _ _ | dropped h _ => h

def outcome : MarkerEvent → Nat
  | opened _ o | joined _ o | found _ o | refused _ o _ | completed _ o _ | dropped _ o => o

/-- Whether the event starts the life of an outcome. -/
def starts : MarkerEvent → Bool
  | opened .. | found .. => true
  | _ => false

/-- How the event ends an append, if it does. An outcome that was found was
settled from the start. -/
def result? : MarkerEvent → Option FenceResult
  | opened .. | joined .. => none
  | found .. => some (.ok true)
  | refused _ _ cause => some (.error cause.fenceError)
  | completed _ _ code => some (.ok code.isOk)
  | dropped .. => some (.error .abandoned)

end MarkerEvent

namespace Host

/-- The events of handing a marker to a journal. -/
def submissionEvents (w : Host) (id : Nat) (t : Thread) (h o : Nat) : List MarkerEvent :=
  let handle := w.handleAt h
  match w.verdict id t (Entry.fenceMarker handle.ledger) handle.ackBeforeSync (.fence h o) with
  | .refused cause => [.refused h o cause]
  | .completed report => [.completed h o report.code]
  | .held => []

/-- The events of a fence call. -/
def fenceEvents (w : Host) (id : Nat) (t : Thread) (h : Nat) : List MarkerEvent :=
  match w.decideFence h with
  | (.error _, _) => []
  | (.ok ⟨.alreadyPersisted, o⟩, _) => [.found h o]
  | (.ok ⟨.inFlight, o⟩, _) => [.joined h o]
  | (.ok ⟨.first, o⟩, w) | (.ok ⟨.retry, o⟩, w) => .opened h o :: w.submissionEvents id t h o

/-- The events of an operation. -/
def markerEvents (w : Host) : Op → List MarkerEvent
  | .fence (.writable h) (.journal id) t =>
      if w.knowsHandle (.writable h) && w.knowsPath (.journal id) then w.fenceEvents id t h
      else []
  | .completeNext id code => ((w.heldBy id).take 1).flatMap (·.callback.completedEvents code)
  | .completeAll id code => (w.heldBy id).flatMap (·.callback.completedEvents code)
  | .dropNext id => ((w.heldBy id).take 1).flatMap (·.callback.droppedEvents)
  | .releaseJournal id => (w.heldBy id).flatMap (·.callback.droppedEvents)
  | _ => []

/-- The events of a run, oldest first. -/
def history (w : Host) : List Op → List MarkerEvent
  | [] => []
  | op :: ops => w.markerEvents op ++ (w.perform op).2.history ops

/-! ### Live markers -/

/-- Where the callbacks of markers are: in the hands of whoever runs or submits
them, or in the queue of a journal. -/
def markersAt (w : Host) (hand : List (Nat × Nat)) : Option Nat → List (Nat × Nat)
  | none => hand
  | some id => (w.heldBy id).filterMap (·.callback.marker?)

@[simp] theorem markersAt_some (w : Host) (hand : List (Nat × Nat)) (id : Nat) :
    w.markersAt hand (some id) = (w.heldBy id).filterMap (·.callback.marker?) := rfl

end Host

/-- No two markers share an outcome, wherever they are. -/
structure Apart (places : Option Nat → List (Nat × Nat)) : Prop where
  nodup : ∀ i, ((places i).map Prod.snd).Nodup
  between : ∀ {i j m m'}, m ∈ places i → m' ∈ places j → m.2 = m'.2 → i = j

/-- Whether a marker is somewhere. -/
def Live (places : Option Nat → List (Nat × Nat)) (m : Nat × Nat) : Prop := ∃ i, m ∈ places i

section Moving

variable {q q' : Option Nat → List (Nat × Nat)} {i j : Option Nat} {moved : List (Nat × Nat)}

/-- Moving markers from one place to another loses none. -/
theorem live_move (hi : (moved ++ q' i).Perm (q i)) (hj : (moved ++ q j).Perm (q' j))
    (hothers : ∀ k, k ≠ i → k ≠ j → q' k = q k) (m : Nat × Nat) :
    Live q' m ↔ Live q m := by
  constructor
  · rintro ⟨k, hm⟩
    by_cases hkj : k = j
    · subst hkj
      rcases List.mem_append.mp (hj.mem_iff.mpr hm) with hmoved | hold
      · exact ⟨i, hi.mem_iff.mp (List.mem_append_left _ hmoved)⟩
      · exact ⟨k, hold⟩
    · by_cases hki : k = i
      · subst hki
        exact ⟨k, hi.mem_iff.mp (List.mem_append_right _ hm)⟩
      · exact ⟨k, by rwa [← hothers k hki hkj]⟩
  · rintro ⟨k, hm⟩
    by_cases hki : k = i
    · subst hki
      rcases List.mem_append.mp (hi.mem_iff.mpr hm) with hmoved | hrest
      · exact ⟨j, hj.mem_iff.mp (List.mem_append_left _ hmoved)⟩
      · exact ⟨k, hrest⟩
    · by_cases hkj : k = j
      · subst hkj
        exact ⟨k, hj.mem_iff.mp (List.mem_append_right _ hm)⟩
      · exact ⟨k, by rwa [hothers k hki hkj]⟩

/-- Callbacks that move from one place to another are still in one place each. -/
theorem Apart.move (h : Apart q) (hij : i ≠ j) (hi : (moved ++ q' i).Perm (q i))
    (hj : (moved ++ q j).Perm (q' j)) (hothers : ∀ k, k ≠ i → k ≠ j → q' k = q k) :
    Apart q' := by
  have hsource : ((moved ++ q' i).map Prod.snd).Nodup := (hi.map _).nodup_iff.mpr (h.nodup i)
  rw [List.map_append, List.nodup_append] at hsource
  obtain ⟨hmoved, hrest, happart⟩ := hsource
  have hfrom : ∀ m ∈ moved, m ∈ q i := fun m hm =>
    hi.mem_iff.mp (List.mem_append_left _ hm)
  -- a marker is where it was, or it was moved
  have horigin : ∀ {k m}, m ∈ q' k → m ∈ q k ∨ k = j ∧ m ∈ moved := by
    intro k m hm
    by_cases hkj : k = j
    · subst hkj
      rcases List.mem_append.mp (hj.mem_iff.mpr hm) with hmoved | hold
      · exact Or.inr ⟨rfl, hmoved⟩
      · exact Or.inl hold
    · by_cases hki : k = i
      · subst hki
        exact Or.inl (hi.mem_iff.mp (List.mem_append_right _ hm))
      · exact Or.inl (by rwa [← hothers k hki hkj])
  -- what stayed at the source shares no outcome with what left it
  have hclash : ∀ {k m m'}, m ∈ q' k → m ∈ q k → m' ∈ moved → m.2 = m'.2 → k = j := by
    intro k m m' hm hold hm' heq
    have hki : k = i := h.between hold (hfrom m' hm') heq
    subst hki
    exact absurd heq.symm
      (happart _ (List.mem_map_of_mem hm') _ (List.mem_map_of_mem hm))
  refine ⟨?_, ?_⟩
  · intro k
    by_cases hkj : k = j
    · subst hkj
      rw [← (hj.map _).nodup_iff, List.map_append, List.nodup_append]
      refine ⟨hmoved, h.nodup k, ?_⟩
      intro o ho o' ho' heq
      obtain ⟨m, hm, rfl⟩ := List.mem_map.mp ho
      obtain ⟨m', hm', rfl⟩ := List.mem_map.mp ho'
      exact hij (h.between (hfrom m hm) hm' heq)
    · by_cases hki : k = i
      · subst hki
        exact hrest
      · rw [hothers k hki hkj]
        exact h.nodup k
  · intro k k' m m' hm hm' heq
    rcases horigin hm with hold | ⟨hk, hmem⟩
    · rcases horigin hm' with hold' | ⟨hk', hmem'⟩
      · exact h.between hold hold' heq
      · rw [hk']
        exact hclash hm hold hmem' heq
    · rcases horigin hm' with hold' | ⟨hk', -⟩
      · rw [hk]
        exact (hclash hm' hold' hmem heq.symm).symm
      · rw [hk, hk']

end Moving

section Taking

variable {q q' : Option Nat → List (Nat × Nat)} {m : Nat × Nat}

/-- With one more marker in hand, that one is live besides the others. -/
theorem live_cons (hhand : q' none = m :: q none) (hothers : ∀ id, q' (some id) = q (some id))
    (m' : Nat × Nat) : Live q' m' ↔ m' = m ∨ Live q m' := by
  constructor
  · rintro ⟨i, hm⟩
    cases i with
    | none =>
        rw [hhand] at hm
        exact (List.mem_cons.mp hm).imp_right fun hm => ⟨none, hm⟩
    | some id =>
        rw [hothers] at hm
        exact Or.inr ⟨some id, hm⟩
  · rintro (rfl | ⟨i, hm⟩)
    · exact ⟨none, by rw [hhand]; exact List.mem_cons_self⟩
    · cases i with
      | none => exact ⟨none, by rw [hhand]; exact List.mem_cons_of_mem _ hm⟩
      | some id => exact ⟨some id, by rwa [hothers]⟩

/-- A new marker in hand is apart from those that are somewhere already. -/
theorem Apart.cons (h : Apart q) (hhand : q' none = m :: q none)
    (hothers : ∀ id, q' (some id) = q (some id)) (hnew : ∀ m', Live q m' → m'.2 ≠ m.2) :
    Apart q' where
  nodup i := by
    cases i with
    | none =>
        rw [hhand, List.map_cons, List.nodup_cons]
        refine ⟨?_, h.nodup none⟩
        intro hmem
        obtain ⟨m', hm', heq⟩ := List.mem_map.mp hmem
        exact hnew m' ⟨none, hm'⟩ heq
    | some id =>
        rw [hothers]
        exact h.nodup (some id)
  between {i j m₁ m₂} hm₁ hm₂ heq := by
    -- whoever shares the outcome of the new marker is the new marker
    have hwhere : ∀ {k m'}, m' ∈ q' k → m' ∈ q k ∨ k = none ∧ m' = m := by
      intro k m' hm'
      cases k with
      | none =>
          rw [hhand] at hm'
          exact (List.mem_cons.mp hm').symm.imp_right fun heq => ⟨rfl, heq⟩
      | some id =>
          rw [hothers] at hm'
          exact Or.inl hm'
    rcases hwhere hm₁ with hold | ⟨rfl, rfl⟩
    · rcases hwhere hm₂ with hold' | ⟨rfl, rfl⟩
      · exact h.between hold hold' heq
      · exact absurd heq (hnew m₁ ⟨i, hold⟩)
    · rcases hwhere hm₂ with hold' | ⟨rfl, -⟩
      · exact absurd heq.symm (hnew m₂ ⟨j, hold'⟩)
      · rfl

/-- Without the marker in hand, the others stay apart, and none of them shares
its outcome. -/
theorem Apart.uncons (h : Apart q) (hhand : q none = m :: q' none)
    (hothers : ∀ id, q' (some id) = q (some id)) :
    Apart q' ∧ ∀ m', Live q' m' → m'.2 ≠ m.2 := by
  have hin : ∀ {k m'}, m' ∈ q' k → m' ∈ q k := by
    intro k m' hm'
    cases k with
    | none =>
        rw [hhand]
        exact List.mem_cons_of_mem _ hm'
    | some id => rwa [← hothers]
  have hfirst : m ∈ q none := by
    rw [hhand]
    exact List.mem_cons_self
  have hnodup := h.nodup none
  rw [hhand, List.map_cons, List.nodup_cons] at hnodup
  refine ⟨⟨?_, fun hm hm' => h.between (hin hm) (hin hm')⟩, ?_⟩
  · intro i
    cases i with
    | none => exact hnodup.2
    | some id =>
        rw [hothers]
        exact h.nodup (some id)
  · rintro m' ⟨i, hm'⟩ heq
    have hi : i = none := h.between (hin hm') hfirst heq
    subst hi
    exact hnodup.1 (List.mem_map.mpr ⟨m', hm', heq⟩)

end Taking

end FencedLedger
