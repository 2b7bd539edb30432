import FencedLedger.Proofs.AcceptedEntries
import FencedLedger.Proofs.Timelines

/-!
# Ledgers as write-once logs

Whatever happened to a store, each ledger in it is a log of the entries accepted
since the ledger was created. Each is kept as it was submitted, under the id that
it names, and read and listed under it until the ledger is removed. No id is taken
twice, and none that is reserved for journals is taken at all. A store with
planned faults may answer with a fault instead; its entries are those of the store
behind the plan.
-/

namespace FencedLedger

namespace Host

variable {w w' : Host} {op : Op} {l : LedgerId} {e : EntryId} {entry : Bytes}

/-- What a store answers about the entries of a ledger after a run. -/
structure KeepsLog (w : Host) (ops : List Op) (l : LedgerId) : Prop where
  stored : ∀ e entry, (w.run ops).store.entryAt? l e = some entry ↔
    AcceptedSince w ops l e entry
  /-- Entries open with the id of their ledger and their own, which is no reserved one. -/
  layout : ∀ {e entry}, AcceptedSince w ops l e entry → e.isUser = true ∧ ∃ rest,
    entry = BigEndian.encodeWord l.value ++ BigEndian.encodeWord e.value ++ rest
  markers : ∀ {e entry}, AcceptedSince w ops l e entry → ∀ l', entry ≠ Entry.fenceMarker l'
  read : ∀ {e}, e.isUser = true → ∀ access entry,
    ((w.run ops).perform (.request access (.entry l e))).1 = .ok (.bytes entry) ↔
      AcceptedSince w ops l e entry
  missing : ∀ {e}, e.isUser = true → ∀ access,
    ((w.run ops).perform (.request access (.entry l e))).1 = .error (.store (.noEntry l e)) ↔
      ∀ entry, ¬ AcceptedSince w ops l e entry
  listed : ∀ access, ∃ ids,
    ((w.run ops).perform (.request access (.entryIds l))).1 = .ok (.entries ids) ∧
      ids.Pairwise (· < ·) ∧ ∀ e, e ∈ ids ↔ ∃ entry, AcceptedSince w ops l e entry
  /-- Another entry under an id that is taken is refused. -/
  once : ∀ {e entry}, AcceptedSince w ops l e entry → ∀ access again,
    Entry.readHeader again = .ok ⟨l, e⟩ →
      ((w.run ops).perform (.append access again)).1 = .error (.store (.duplicateEntry l e)) ∧
        ((w.run ops).perform (.append access again)).2.store = (w.run ops).store
  /-- Entries stay until the ledger is removed. -/
  lasting : ∀ {later},
    (∀ mid op rest, later = mid ++ op :: rest → (w.run (ops ++ mid)).removed? op ≠ some l) →
      (w.run (ops ++ later)).store.ledgers.contains l = true ∧
        ∀ {e entry}, AcceptedSince w ops l e entry →
          (w.run (ops ++ later)).store.entryAt? l e = some entry

/-! ### What was accepted -/

/-- An entry that was accepted is stored under the ids in its header. -/
theorem stores_of_accepted (h : w.accepted? op = some entry)
    (hheader : Entry.readHeader entry = .ok ⟨l, e⟩) :
    Store.Stores l e entry w.store (w.perform op).2.store := by
  have hwrites := perform_writes w op
  rw [h] at hwrites
  generalize w.removed? op = removed at hwrites
  cases hwrites with
  | one hstores =>
      obtain ⟨rfl, rfl⟩ := Entry.Header.mk.inj (Except.ok.inj (hstores.header.symm.trans hheader))
      exact hstores

theorem AcceptedSince.layout {ops : List Op} (h : AcceptedSince w ops l e entry) :
    e.isUser = true ∧ ∃ rest,
      entry = BigEndian.encodeWord l.value ++ BigEndian.encodeWord e.value ++ rest := by
  obtain ⟨pre, op, post, -, haccepted, hheader, -⟩ := h
  exact ⟨(stores_of_accepted haccepted hheader).user, Entry.eq_of_readHeader hheader⟩

/-- Fence markers carry a reserved id. -/
theorem AcceptedSince.ne_fenceMarker {ops : List Op} (h : AcceptedSince w ops l e entry)
    (l' : LedgerId) : entry ≠ Entry.fenceMarker l' := by
  rintro rfl
  have huser := h.layout.1
  obtain ⟨pre, op, post, -, -, hheader, -⟩ := h
  cases (Entry.readHeader_fenceMarker l').symm.trans hheader
  exact absurd huser (by decide)

/-! ### What lasts -/

/-- Only the removal of a ledger takes entries from it. -/
theorem perform_lasting {t : Table EntryId Bytes} (hkept : w.removed? op ≠ some l)
    (ht : w.store.entriesOf? l = some t) :
    ∃ t', (w.perform op).2.store.entriesOf? l = some t' ∧
      ∀ e entry, t.get? e = some entry → t'.get? e = some entry := by
  have hwrites := perform_writes w op
  generalize w.accepted? op = accepted at hwrites
  generalize w.removed? op = removed at hwrites hkept
  cases hwrites with
  | none h => exact ⟨t, h.kept ht, fun _ _ hget => hget⟩
  | clears h => exact ⟨t, h.kept (fun heq => hkept (congrArg some heq)) ht, fun _ _ hget => hget⟩
  | @one l' e' entry' h =>
      by_cases hl : l' = l
      · subst hl
        obtain ⟨t₀, ht₀, hnew, hafter⟩ := h.written
        obtain rfl : t₀ = t := Option.some.inj (ht₀.symm.trans ht)
        refine ⟨_, hafter, fun e entry hget => ?_⟩
        have hne : e' ≠ e := by
          rintro rfl
          cases hnew.symm.trans hget
        rwa [Table.get?_insert_ne _ _ hne]
      · exact ⟨t, h.kept hl ht, fun _ _ hget => hget⟩

/-- What is stored stays over a run, while the ledger is there. -/
theorem run_lasting {t : Table EntryId Bytes} (ops : List Op)
    (hkept : ∀ mid op rest, ops = mid ++ op :: rest → (w.run mid).removed? op ≠ some l)
    (ht : w.store.entriesOf? l = some t) :
    ∃ t', (w.run ops).store.entriesOf? l = some t' ∧
      ∀ e entry, t.get? e = some entry → t'.get? e = some entry := by
  induction ops generalizing w t with
  | nil => exact ⟨t, ht, fun _ _ hget => hget⟩
  | cons op ops ih =>
      obtain ⟨t₁, ht₁, hsub₁⟩ := perform_lasting (hkept [] op ops rfl) ht
      have hrest : ∀ mid op' rest, ops = mid ++ op' :: rest →
          ((w.perform op).2.run mid).removed? op' ≠ some l := fun mid op' rest hsplit =>
        hkept (op :: mid) op' rest (congrArg (op :: ·) hsplit)
      obtain ⟨t₂, ht₂, hsub₂⟩ := ih hrest ht₁
      exact ⟨t₂, ht₂, fun e entry hget => hsub₂ e entry (hsub₁ e entry hget)⟩

/-! ### What is answered -/

section Answers

variable {t : Table EntryId Bytes} (hunplanned : w.faults = none)
  (ht : w.store.entriesOf? l = some t)

include hunplanned

/-- Without planned faults, the store answers. -/
theorem perform_request_of_unplanned (access : Access) {r : Request} {a : Answer} {s : Store}
    (h : r.action w.store = .ok (a, s)) : (w.perform (.request access r)).1 = .ok a := by
  have hanswer : (w.request access r).1 = .ok a := by
    unfold request
    rw [send_of_unplanned hunplanned]
    unfold ask
    rw [h]
  exact answer_of_ok hanswer .store id

/-- Without planned faults, the store refuses. -/
theorem perform_request_error_of_unplanned (access : Access) {r : Request} {cause : StoreError}
    (h : r.action w.store = .error cause) :
    (w.perform (.request access r)).1 = .error (.store cause) := by
  have hanswer : (w.request access r).1 = .error cause := by
    unfold request
    rw [send_of_unplanned hunplanned]
    unfold ask
    rw [h]
  exact answer_of_error hanswer .store id

include ht

/-- Reading answers the entry, or that there is none. -/
theorem perform_read (huser : e.isUser = true) (access : Access) :
    (w.perform (.request access (.entry l e))).1 =
      match t.get? e with
      | none => .error (.store (.noEntry l e))
      | some entry => .ok (.bytes entry) := by
  have hentry := Store.entry_of_entriesOf? huser ht
  cases hget : t.get? e with
  | none =>
      rw [hget] at hentry
      refine perform_request_error_of_unplanned hunplanned access ?_
      simp only [Request.action, Request.answering, hentry]
      rfl
  | some entry =>
      rw [hget] at hentry
      refine perform_request_of_unplanned hunplanned access (s := w.store) ?_
      simp only [Request.action, Request.answering, hentry]
      rfl

theorem perform_list (access : Access) :
    ∃ ids, (w.perform (.request access (.entryIds l))).1 = .ok (.entries ids) ∧
      ids.Pairwise (· < ·) ∧ ∀ e, e ∈ ids ↔ e ∈ t.keys := by
  obtain ⟨ids, hids, hascending, hmem⟩ := Store.entryIds_of_entriesOf? ht
  refine ⟨ids, perform_request_of_unplanned hunplanned access (s := w.store) ?_, hascending, hmem⟩
  simp only [Request.action, Request.answering, hids]
  rfl

/-- A second entry under an id is refused, also if it is the same. -/
theorem perform_again {old : Bytes} (huser : e.isUser = true) (hold : t.get? e = some old)
    (hheader : Entry.readHeader entry = .ok ⟨l, e⟩) (access : Access) :
    (w.perform (.append access entry)).1 = .error (.store (.duplicateEntry l e)) ∧
      (w.perform (.append access entry)).2.store = w.store := by
  have hrefused : w.append access entry = (.error (.duplicateEntry l e), w) :=
    append_of_refused hunplanned access (Store.append_of_taken hheader huser ht hold)
  change (answer _ _ (w.append access entry)).1 = _ ∧
    (answer _ _ (w.append access entry)).2.store = _
  rw [hrefused]
  exact ⟨rfl, rfl⟩

end Answers

theorem run_unplanned (ops : List Op) : ((start none).run ops).faults = none := by
  rw [← live_act]
  exact (live_onward (start none) _).unplanned rfl

/-- After every run of a store without planned faults, a ledger that it holds is the
log of the entries accepted since the ledger was created. -/
theorem ledgers_are_write_once (ops : List Op) {l : LedgerId}
    (hheld : ((start none).run ops).store.ledgers.contains l = true) :
    KeepsLog (start none) ops l := by
  rw [Store.contains_eq_isSome_entriesOf?] at hheld
  obtain ⟨t, ht⟩ := Option.isSome_iff_exists.mp hheld
  have hunplanned := run_unplanned ops
  -- the table holds what was accepted, and all that is read comes from the table
  have hentries := run_entries (w := start none) (fun _ => rfl) ops ht
  have hmem : ∀ e, e ∈ t.keys ↔ ∃ entry, AcceptedSince (start none) ops l e entry := by
    intro e
    rw [← Table.contains_iff, Table.contains, Option.isSome_iff_exists]
    exact exists_congr fun entry => hentries e entry
  constructor
  case stored =>
    intro e entry
    rw [Store.entryAt?, ht]
    exact hentries e entry
  case layout => exact fun haccepted => haccepted.layout
  case markers => exact fun haccepted => haccepted.ne_fenceMarker
  case read =>
    intro e huser access entry
    rw [perform_read hunplanned ht huser, ← hentries]
    cases t.get? e <;> simp
  case missing =>
    intro e huser access
    rw [perform_read hunplanned ht huser]
    simp only [← hentries]
    cases t.get? e <;> simp
  case listed =>
    intro access
    obtain ⟨ids, hids, hascending, hkeys⟩ := perform_list hunplanned ht access
    exact ⟨ids, hids, hascending, fun e => (hkeys e).trans (hmem e)⟩
  case once =>
    intro e entry haccepted access again hheader
    exact perform_again hunplanned ht haccepted.layout.1 ((hentries e entry).mpr haccepted)
      hheader access
  case lasting =>
    intro later hkept
    have hkept' : ∀ mid op rest, later = mid ++ op :: rest →
        (((start none).run ops).run mid).removed? op ≠ some l := by
      intro mid op rest hsplit
      rw [← run_append]
      exact hkept mid op rest hsplit
    obtain ⟨t', ht', hsub⟩ := run_lasting later hkept' ht
    rw [run_append, Store.contains_eq_isSome_entriesOf?, ht']
    refine ⟨rfl, fun {e entry} haccepted => ?_⟩
    rw [Store.entryAt?, ht']
    exact hsub e entry ((hentries e entry).mpr haccepted)

/-- A ledger is written to, twice under one id, and removed. It is created again and
written to again, the last time with the marker of another ledger. -/
def rewriting : List Op :=
  [.request .direct (.bindKey ⟨1⟩ []), .append .direct (Entry.encode ⟨1⟩ ⟨5⟩ .unset [1]),
    .append .direct (Entry.encode ⟨1⟩ ⟨5⟩ .unset [2]), .remove .direct ⟨1⟩,
    .request .direct (.bindKey ⟨1⟩ []), .append .direct (Entry.encode ⟨1⟩ ⟨7⟩ .unset []),
    .append .direct (Entry.encode ⟨1⟩ ⟨5⟩ .unset [3]), .append .direct (Entry.fenceMarker ⟨2⟩)]

/-- What counts is what was accepted since the ledger was created again. -/
theorem written_since_created_again :
    ((start none).run rewriting).store.ledgers.contains ⟨1⟩ = true ∧
      AcceptedSince (start none) rewriting ⟨1⟩ ⟨5⟩ (Entry.encode ⟨1⟩ ⟨5⟩ .unset [3]) ∧
      ¬ AcceptedSince (start none) rewriting ⟨1⟩ ⟨5⟩ (Entry.encode ⟨1⟩ ⟨5⟩ .unset [1]) ∧
      ∃ ids, (((start none).run rewriting).perform (.request .direct (.entryIds ⟨1⟩))).1 =
        .ok (.entries ids) ∧ ids.Pairwise (· < ·) := by
  have hheld : ((start none).run rewriting).store.ledgers.contains ⟨1⟩ = true := by decide
  have hlog := ledgers_are_write_once rewriting hheld
  refine ⟨hheld, (hlog.stored _ _).mp (by decide), fun haccepted => ?_, ?_⟩
  · exact absurd ((hlog.stored _ _).mpr haccepted) (by decide)
  · obtain ⟨ids, hids, hascending, -⟩ := hlog.listed .direct
    exact ⟨ids, hids, hascending⟩

end Host

end FencedLedger
