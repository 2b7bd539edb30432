import FencedLedger.Proofs.StoreCalls

/-!
# Readers are invisible

A reader refuses every call that could change something, and passes the others on just as
a writable handle of its ledger does. So calls on readers leave a host as it is, watches
apart, and every run comes to the same without them, answer by answer and host by host. A
store with planned faults spends them on whoever calls, readers too, and is therefore
left out.
-/

namespace FencedLedger

/-- Whether a request leaves every store as it is. -/
def Request.onlyLooks : Request → Bool
  | .key _ | .holds _ | .entry .. | .isFenced _ | .notedConfirmed _ | .confirmed _
  | .entryIds _ => true
  | .bindKey .. | .fence _ | .noteConfirmed .. | .watch .. | .unwatch .. => false

/-- Whether a call begins or ends a watch. -/
def HandleCall.watches : HandleCall → Bool
  | .watch .. | .unwatch _ => true
  | _ => false

/-- Whether an operation is made on a reader, watches apart. -/
def Op.onReader : Op → Bool
  | .use (.reader _) call => !call.watches
  | .fence (.reader _) .. => true
  | _ => false

theorem Store.store_of_onlyLooks {s s' : Store} {r : Request} {a : Answer}
    (hr : r.onlyLooks = true) (h : r.action s = .ok (a, s')) : s' = s := by
  cases request_change h with
  | none => rfl
  | bindKey | fence | noteConfirmed | watch | unwatch => cases hr

/-- A call that readers do not refuse looks at a ledger, or is about a watch. -/
theorem HandleCall.request?_of_not_guarded {call : HandleCall} (hcall : call.guarded? = none)
    (l : LedgerId) :
    ∃ r, call.request? l = some r ∧ (call.watches = false → r.onlyLooks = true) := by
  cases call with
  | access | fence | append | noteConfirmed => cases hcall
  | watch | unwatch => exact ⟨_, rfl, nofun⟩
  | _ => exact ⟨_, rfl, fun _ => rfl⟩

namespace Host

variable {w : Host} {op : Op} {call : HandleCall}

/-- Without planned faults, asking to look at a ledger leaves no trace. -/
theorem forward_of_onlyLooks (hunplanned : w.faults = none) {r : Request}
    (hr : r.onlyLooks = true) : (w.forward r).2 = w := by
  rw [forward_host]
  unfold request
  rw [send_of_unplanned hunplanned]
  cases hask : w.ask r.action with
  | mk result w' =>
      cases result with
      | error e => exact ask_eq hask (ask_error hask).store
      | ok a => exact ask_eq hask (Store.store_of_onlyLooks hr (ask_ok hask).1)

/-! ### Calls on readers -/

/-- A reader refuses the calls that could change something, whatever they are about. -/
theorem useReader_of_guarded {guarded : GuardedCall} (hcall : call.guarded? = some guarded)
    (w : Host) (l : LedgerId) :
    w.useReader l call = (.error (.readOnly guarded l), w) := by
  unfold useReader
  rw [hcall]

/-- It passes the others on. -/
theorem useReader_of_not_guarded (hcall : call.guarded? = none) {l : LedgerId} {r : Request}
    (hr : call.request? l = some r) (w : Host) : w.useReader l call = w.forward r := by
  unfold useReader
  rw [hcall, hr]

/-- So does a writable handle. -/
theorem useWritable_of_not_guarded (hcall : call.guarded? = none) {h : Nat} {r : Request}
    (hr : call.request? (w.handleAt h).ledger = some r) : w.useWritable h call = w.forward r := by
  unfold useWritable
  cases call with
  | access | append => cases hcall
  | _ =>
      cases hr
      rfl

/-- Without planned faults, a reader that does not wait leaves no trace. -/
theorem use_reader_same (hunplanned : w.faults = none) (r : Nat)
    (hwatches : call.watches = false) : (w.use (.reader r) call).2 = w := by
  change (w.useReader (w.ledgerOf (.reader r)) call).2 = w
  cases hcall : call.guarded? with
  | some guarded => rw [useReader_of_guarded hcall]
  | none =>
      obtain ⟨request, hrequest, hlooks⟩ :=
        HandleCall.request?_of_not_guarded hcall (w.ledgerOf (.reader r))
      rw [useReader_of_not_guarded hcall hrequest]
      exact forward_of_onlyLooks hunplanned (hlooks hwatches)

/-- What a reader passes on is answered as on a handle. -/
theorem use_agree (hcall : call.guarded? = none) {r h : Nat}
    (hledger : (w.handleAt h).ledger = w.ledgerOf (.reader r)) :
    w.use (.reader r) call = w.use (.writable h) call := by
  obtain ⟨request, hrequest, -⟩ :=
    HandleCall.request?_of_not_guarded hcall (w.ledgerOf (.reader r))
  change w.useReader (w.ledgerOf (.reader r)) call = w.useWritable h call
  rw [useReader_of_not_guarded hcall hrequest,
    useWritable_of_not_guarded hcall (hledger.symm ▸ hrequest)]

/-! ### Operations on readers -/

/-- What a reader refuses changes nothing, and what it passes on only reads. -/
theorem perform_of_onReader (hunplanned : w.faults = none) (hop : op.onReader = true) :
    (w.perform op).2 = w := by
  cases op with
  | use handle call =>
      cases handle with
      | writable h => cases hop
      | reader r =>
          refine whenHeld_host (P := (· = w)) rfl ?_
          rw [answer_host]
          exact use_reader_same hunplanned r (by simpa [Op.onReader] using hop)
  | fence handle path t =>
      cases handle with
      | writable h => cases hop
      | reader r => exact whenHeld_host (P := (· = w)) rfl rfl
  | _ => cases hop

/-! ### Runs -/

/-- An operation of a run, what it answered, and the host behind it. -/
structure Turn where
  op : Op
  answer : Except Failure Answer
  host : Host

/-- What the operations of a run come to, one after the other. -/
def turns (w : Host) : List Op → List Turn
  | [] => []
  | op :: ops => ⟨op, (w.perform op).1, (w.perform op).2⟩ :: (w.perform op).2.turns ops

theorem turns_cons (w : Host) (op : Op) (ops : List Op) :
    w.turns (op :: ops) =
      ⟨op, (w.perform op).1, (w.perform op).2⟩ :: (w.perform op).2.turns ops := rfl

/-- By induction on the run: the host that an operation on a reader leaves behind is the
one that the shorter run goes on from. -/
theorem run_without_readers (hunplanned : w.faults = none) (ops : List Op) :
    w.turns (ops.filter fun op => !op.onReader) =
        (w.turns ops).filter (fun turn => !turn.op.onReader) ∧
      w.run (ops.filter fun op => !op.onReader) = w.run ops := by
  induction ops generalizing w with
  | nil => exact ⟨rfl, rfl⟩
  | cons op ops ih =>
      rw [turns_cons]
      change _ ∧ _ = (w.perform op).2.run ops
      cases hop : op.onReader with
      | true =>
          rw [perform_of_onReader hunplanned hop, List.filter_cons_of_neg (by simp [hop]),
            List.filter_cons_of_neg (by simp [hop])]
          exact ih hunplanned
      | false =>
          have hstill := (perform_effect w op).onward.unplanned hunplanned
          rw [List.filter_cons_of_pos (by simp [hop]), List.filter_cons_of_pos (by simp [hop]),
            turns_cons]
          exact ⟨congrArg _ (ih hstill).1, (ih hstill).2⟩

/-- Without planned faults, every run comes to the same without the operations on readers:
the others answer the same and leave the same hosts behind, with stores, caches, journals,
outcomes, flags, counts and events. Nor does such an operation change a host in the middle
of what others do. On every host, a reader refuses the calls that could change something
for its ledger, and answers and does for the others what a writable handle of the ledger
would. -/
theorem readers_are_invisible (hunplanned : w.faults = none) (ops : List Op) :
    w.turns (ops.filter fun op => !op.onReader) =
        (w.turns ops).filter (fun turn => !turn.op.onReader) ∧
      w.run (ops.filter fun op => !op.onReader) = w.run ops ∧
      (∀ (v : Host) (op : Op), v.faults = none → op.onReader = true → (v.perform op).2 = v) ∧
      ∀ (v : Host) (r : Nat), v.knowsHandle (.reader r) = true →
        (∀ call guarded, call.guarded? = some guarded →
          v.perform (.use (.reader r) call) =
            (.error (.handle (.readOnly guarded (v.ledgerOf (.reader r)))), v)) ∧
        (∀ path t, v.knowsPath path = true →
          v.perform (.fence (.reader r) path t) =
            (.error (.handle (.readOnly .fenceDurably (v.ledgerOf (.reader r)))), v)) ∧
        ∀ call h, call.guarded? = none → v.knowsHandle (.writable h) = true →
          (v.handleAt h).ledger = v.ledgerOf (.reader r) →
          v.perform (.use (.reader r) call) = v.perform (.use (.writable h) call) := by
  obtain ⟨hturns, hrun⟩ := run_without_readers hunplanned ops
  refine ⟨hturns, hrun, fun v op => perform_of_onReader, fun v r hheld => ⟨?_, ?_, ?_⟩⟩
  · intro call guarded hcall
    have hrefused := useReader_of_guarded hcall v (v.ledgerOf (.reader r))
    rw [perform_use_of_held hheld]
    exact congrArg (answer .handle id) hrefused
  · intro path t hpath
    exact if_pos (Bool.and_eq_true_iff.mpr ⟨hheld, hpath⟩)
  · intro call h hcall hheld' hledger
    rw [perform_use_of_held hheld, perform_use_of_held hheld', use_agree hcall hledger]

/-- A reader of a ledger waits, lists, and is told to fence and to write, while a writer
appends, the ledger is deleted and somebody creates it anew. -/
def attended : List Op :=
  [.createHandle ⟨1⟩ [0x6b] false, .createReader ⟨1⟩, .createMemoryJournal,
    .use (.reader 0) (.watch .unset ⟨"w", .read⟩),
    .use (.reader 0) (.access [0x6b]), .fence (.reader 0) (.journal 0) (.worker 0),
    .use (.writable 0) (.append (Entry.encode ⟨1⟩ ⟨0⟩ ⟨0⟩ [])),
    .use (.reader 0) (.entryIds ⟨1⟩), .remove .planned ⟨1⟩, .use (.reader 0) .isFenced,
    .request .planned (.bindKey ⟨1⟩ [7]), .use (.reader 0) (.noteConfirmed []),
    .fence (.writable 0) (.journal 0) (.worker 1)]

/-- Five of the thirteen operations can be left out. The watch of the reader cannot, and
its watcher is told of the entry. -/
theorem attended_without_reader :
    (start none).faults = none ∧ (attended.filter (·.onReader)).length = 5 ∧
      ((start none).run (attended.filter fun op => !op.onReader)).notified =
        [⟨⟨"w", .read⟩, ⟨1⟩, ⟨0⟩⟩] := by
  refine ⟨rfl, by decide, ?_⟩
  rw [(readers_are_invisible (w := start none) rfl attended).2.1]
  decide

end Host

end FencedLedger
