import FencedLedger.Proofs.InterruptFlags
import FencedLedger.Proofs.ScriptedQueues
import FencedLedger.Proofs.StoreAsks

/-!
# What passes through journals

A run tells journals what to do, hands them entries, and has them run and let go of
callbacks. Here that is written down as it happens, one record for each step that touches a
journal or runs a callback, and every run of a host is such a sequence of steps. So a
scripted journal takes the course that its records say, and callbacks are told what the
records say. Which records a journal allows is told apart elsewhere.
-/

namespace FencedLedger

/-- A step of a run that touches a journal or runs a callback. -/
inductive JournalRecord where
  /-- A journal is told something, is handed an entry, or ends the append held longest. -/
  | acted (journal : Nat) (act : JournalAct)
  /-- A journal is let go, with the callbacks that it holds. -/
  | released (journal : Nat)
  /-- A callback is run on the way to a journal. -/
  | bypassed (callback : Callback) (report : Completion)

namespace JournalRecord

/-- What concerns the journal with the given number. -/
def on? (id : Nat) : JournalRecord → Option JournalAct
  | acted k act => if k = id then some act else none
  | _ => none

/-- The callback that is run, and what it is told. -/
def called? : JournalRecord → Option (Callback × Completion)
  | acted _ act => act.called?
  | released _ => none
  | bypassed callback report => some (callback, report)

end JournalRecord

/-- What running a callback reports to whoever submitted the entry. -/
def Callback.reported? (completion : Completion) : Callback → Option (String × Completion)
  | .report label => some (label, completion)
  | .fence .. => none

/-- What a step reports to whoever submitted an entry. -/
def JournalRecord.reported? (r : JournalRecord) : Option (String × Completion) :=
  r.called?.bind fun (callback, completion) => callback.reported? completion

/-- What an event reports of an append. -/
def Event.reported? : Event → Option (String × Completion)
  | .completed label report => some (label, report)
  | _ => none

/-- Whether an operation tells a journal something, hands it an entry, or ends appends. -/
def Op.drivesJournals : Op → Bool
  | .fence .. | .log .. | .releaseJournal _ | .setMode .. | .queueFailure ..
  | .completeNext .. | .completeAll .. | .dropNext _ => true
  | _ => false

/-- The scripted journal that a journal is. -/
def Journal.scripted? : Journal → Option ScriptedJournal
  | .memory _ => none
  | .scripted j => some j

namespace Host

variable {w w' w'' : Host} {id : Nat} {log log' : List JournalRecord}

/-- The scripted journal with the given number. -/
def scripted? (w : Host) (id : Nat) : Option ScriptedJournal :=
  (w.journals.get? id).bind Journal.scripted?

/-- The reports on appends so far, oldest first. -/
def reported (w : Host) : List (String × Completion) := w.events.filterMap Event.reported?

/-- The steps from one host to another, with their records. -/
inductive Traffic : Host → List JournalRecord → Host → Prop where
  | nothing (w : Host) : Traffic w [] w
  | onward {w w' w'' : Host} {log log' : List JournalRecord} (first : Traffic w log w')
      (rest : Traffic w' log' w'') : Traffic w (log ++ log') w''
  | submitted (w : Host) (id : Nat) (t : Thread) (entry : Bytes) (ack : Bool)
      (callback : Callback) :
      Traffic w
        [.acted id (.submitted (w.interrupts.isRaised t) ⟨entry, ack⟩ callback
          (w.verdict id t entry ack callback))]
        (submitTo id w t entry ack callback).2
  | completed {w w' : Host} {id : Nat} {held : Held} (code : ReturnCode)
      (taken : w.takeHeld id = (some held, w')) :
      Traffic w [.acted id (.completed held code)]
        (w'.complete held.callback (.of held.entry code))
  | dropped {w w' : Host} {id : Nat} {held : Held} (taken : w.takeHeld id = (some held, w')) :
      Traffic w [.acted id (.dropped held)] (w'.abandon held.callback)
  | switched (w : Host) (id : Nat) (mode : AckMode) :
      Traffic w [.acted id (.switched mode)] (w.modifyScripted id fun j => { j with mode })
  | queued (w : Host) (id : Nat) (cause : JournalError) :
      Traffic w [.acted id (.queued cause)]
        (w.modifyScripted id fun j => { j with failures := j.failures ++ [cause] })
  | released (w : Host) (id : Nat) : Traffic w [.released id] (w.releaseJournal id)
  | bypassed (w : Host) (callback : Callback) (report : Completion) :
      Traffic w [.bypassed callback report] (w.complete callback report)
  /-- The other steps of fence calls. -/
  | decided (w : Host) (h : Nat) : Traffic w [] (w.decideFence h).2
  | refused (w : Host) (t : Thread) (o : Nat) (cause : JournalError) :
      Traffic w [] (w.refuseMarker t o cause)
  | refenced (w : Host) (answer : Except HandleError Outcome) :
      Traffic w [] (w.emit (.refenced answer))
  /-- Operations on other things. -/
  | aside (w : Host) {op : Op} (hop : op.drivesJournals = false) :
      Traffic w [] (w.perform op).2

/-! ### Every run is such a sequence -/

/-- Steps between which no journal is let go. -/
def KeepsJournals (w w' : Host) : Prop :=
  ∃ log, Traffic w log w' ∧ ∀ id, .released id ∉ log

theorem KeepsJournals.trans (h : KeepsJournals w w') (h' : KeepsJournals w' w'') :
    KeepsJournals w w'' := by
  obtain ⟨log, htraffic, hkept⟩ := h
  obtain ⟨log', htraffic', hkept'⟩ := h'
  refine ⟨log ++ log', htraffic.onward htraffic', fun id hmem => ?_⟩
  exact (List.mem_append.mp hmem).elim (hkept id) (hkept' id)

theorem lt_next_of_scripted? {j : ScriptedJournal} (h : w.scripted? id = some j) :
    id < w.journals.next := by
  refine Nat.lt_of_not_le fun hle => ?_
  unfold scripted? at h
  rw [w.journals.get?_of_next_le hle] at h
  cases h

/-- How the scripted journal with the given number fares along a log: it takes the course
that the log says, or it is let go on the way and gone for good. -/
structure Fares (id : Nat) (log : List JournalRecord) (w w' : Host) : Prop where
  next_le : w.journals.next ≤ w'.journals.next
  gone : id < w.journals.next → w.scripted? id = none → w'.scripted? id = none
  course : ∀ {j}, w.scripted? id = some j →
    (∃ j', w'.scripted? id = some j' ∧ j.Course (log.filterMap (·.on? id)) j') ∨
      .released id ∈ log ∧ w'.scripted? id = none

theorem Fares.trans (h : Fares id log w w') (h' : Fares id log' w' w'') :
    Fares id (log ++ log') w w'' where
  next_le := Nat.le_trans h.next_le h'.next_le
  gone hlt hnone := h'.gone (Nat.lt_of_lt_of_le hlt h.next_le) (h.gone hlt hnone)
  course {j} hj := by
    have hlt := Nat.lt_of_lt_of_le (lt_next_of_scripted? hj) h.next_le
    rcases h.course hj with ⟨j₁, hj₁, hfirst⟩ | ⟨hmem, hnone⟩
    · rcases h'.course hj₁ with ⟨j', hj', hrest⟩ | ⟨hmem, hnone⟩
      · rw [List.filterMap_append]
        exact Or.inl ⟨j', hj', hfirst.append hrest⟩
      · exact Or.inr ⟨List.mem_append_right _ hmem, hnone⟩
    · exact Or.inr ⟨List.mem_append_left _ hmem, h'.gone hlt hnone⟩

theorem reported_of_events (h : w'.events = w.events) : w'.reported = w.reported := by
  unfold reported
  rw [h]

theorem sameEvents_ignoresBooks : IgnoresBooks fun w w' => w'.events = w.events where
  trans h h' := h'.trans h
  books _ _ _ _ := rfl

/-- A callback that only reports raises its event when it is completed. -/
theorem complete_reported (w : Host) (callback : Callback) (completion : Completion) :
    (w.complete callback completion).reported =
      w.reported ++ (callback.reported? completion).toList := by
  cases callback with
  | fence h o =>
      have hevents : (w.complete (.fence h o) completion).events = w.events :=
        sameEvents_ignoresBooks.noteMarker w h completion.code
      simp [reported_of_events hevents, Callback.reported?]
  | report label =>
      unfold reported complete emit
      rw [List.filterMap_append]
      rfl

/-- A submission is reported if the journal runs the callback at once. -/
theorem submitTo_reported (w : Host) (id : Nat) (t : Thread) (entry : Bytes) (ack : Bool)
    (callback : Callback) :
    (submitTo id w t entry ack callback).2.reported =
      w.reported ++ [JournalRecord.acted id (.submitted (w.interrupts.isRaised t) ⟨entry, ack⟩
        callback (w.verdict id t entry ack callback))].filterMap JournalRecord.reported? := by
  have hevents : (w.handOver id t entry ack callback).2.events = w.events := by
    unfold handOver
    split <;> rfl
  rw [submitTo_eq_handOver, ← handOver_verdict]
  generalize w.handOver id t entry ack callback = r at hevents ⊢
  obtain ⟨verdict, w₁⟩ := r
  rw [← reported_of_events hevents, filterMap_singleton]
  cases verdict with
  | refused cause => exact (List.append_nil _).symm
  | held => exact (List.append_nil _).symm
  | completed completion => exact complete_reported w₁ callback completion

theorem takeHeld_events {held : Held} (h : w.takeHeld id = (some held, w')) :
    w'.events = w.events := by
  unfold takeHeld at h
  split at h
  next => cases h
  next =>
    cases h
    rfl

/-- Whatever does not drive journals reports no completion. -/
theorem aside_reported (w : Host) {op : Op} (hop : op.drivesJournals = false) :
    (w.perform op).2.reported = w.reported := by
  cases hfencing : op.concernsFencing with
  | false =>
      -- only operations about fencing raise reports
      obtain ⟨raised, hraised, hkinds⟩ := (perform_acts w op).emits
      have hsilent : raised.filterMap Event.reported? = [] := by
        rw [List.filterMap_eq_nil_iff]
        intro e he
        have hkind := hkinds e he
        cases e with
        | completed label completion =>
            rw [Op.mayRaise_completed, hfencing] at hkind
            cases hkind
        | _ => rfl
      unfold reported
      rw [hraised, List.filterMap_append, hsilent, List.append_nil]
  | true =>
      cases op with
      | createMemoryJournal | createScriptedJournal | createOutcome | shutDown => rfl
      | fence | log | releaseJournal | setMode | queueFailure | completeNext | completeAll
      | dropNext => cases hop
      | _ => cases hfencing

/-- What is reported to those who submitted entries is what the records say, in order. -/
theorem Traffic.reported (h : Traffic w log w') :
    w'.reported = w.reported ++ log.filterMap JournalRecord.reported? := by
  have hsilent : ∀ {w w' : Host}, w'.events = w.events → w'.reported = w.reported ++ [] :=
    fun h => (reported_of_events h).trans (List.append_nil _).symm
  induction h with
  | nothing w => exact hsilent rfl
  | onward first rest ihfirst ihrest =>
      rw [ihrest, ihfirst, List.filterMap_append, List.append_assoc]
  | submitted w id t entry ack callback => exact submitTo_reported w id t entry ack callback
  | @completed w w₁ id held code taken =>
      rw [complete_reported, reported_of_events (takeHeld_events taken), filterMap_singleton]
      rfl
  | @dropped w w₁ id held taken =>
      have habandoned := sameEvents_ignoresBooks.abandon w₁ held.callback
      exact hsilent (habandoned.trans (takeHeld_events taken))
  | switched w id mode => exact hsilent rfl
  | queued w id cause => exact hsilent rfl
  | released w id =>
      exact hsilent (sameEvents_ignoresBooks.abandonAll (w.heldBy id)
        { w with journals := w.journals.release id })
  | bypassed w callback completion =>
      rw [complete_reported, filterMap_singleton]
      rfl
  | decided w h => exact hsilent (decideFence_acts (fun _ => false) w h).emits.events_eq
  | refused w t o cause =>
      cases cause <;> exact hsilent rfl
  | refenced w answer =>
      change List.filterMap _ (w.events ++ [_]) = _
      rw [List.filterMap_append]
      rfl
  | aside w hop => exact (aside_reported w hop).trans (List.append_nil _).symm

end Host

end FencedLedger
