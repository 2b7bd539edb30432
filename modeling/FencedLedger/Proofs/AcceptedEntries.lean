import FencedLedger.Proofs.Effects
import FencedLedger.Proofs.EntryViews
import Mathlib.Data.List.Induction

/-!
# Entries that were accepted

An operation may submit an entry, to the store or through a handle, and the store
accepts it or not. The entries of a ledger are just those that were accepted for
it since it was last created: what is stored can be read off the answers of a run,
and what was accepted is in the store.
-/

namespace FencedLedger

/-- The bytes that an operation submits as an entry. -/
def Op.submitted? : Op → Option Bytes
  | .append _ entry | .use _ (.append entry) => some entry
  | _ => none

namespace Host

variable {w w' : Host} {op : Op} {l : LedgerId} {e : EntryId} {entry : Bytes}

/-- The bytes that an operation had accepted as an entry. -/
def accepted? (w : Host) (op : Op) : Option Bytes :=
  match (w.perform op).1 with
  | .ok _ => op.submitted?
  | .error _ => none

/-- An entry was accepted for a ledger under an id, and the ledger was not created
since. -/
def AcceptedSince (w : Host) (ops : List Op) (l : LedgerId) (e : EntryId) (entry : Bytes) :
    Prop :=
  ∃ pre op post, ops = pre ++ op :: post ∧ (w.run pre).accepted? op = some entry ∧
    Entry.readHeader entry = .ok ⟨l, e⟩ ∧
    ∀ mid op' rest, post = mid ++ op' :: rest → ¬ (w.run (pre ++ op :: mid)).recreates op' l

theorem accepted?_of_not_submitted (h : op.submitted? = none) : w.accepted? op = none := by
  unfold accepted?
  split
  next => exact h
  next => rfl

theorem accepted?_of_error {cause : Failure} (h : (w.perform op).1 = .error cause) :
    w.accepted? op = none := by
  unfold accepted?
  rw [h]

theorem accepted?_of_ok {a : Answer} (h : (w.perform op).1 = .ok a) :
    w.accepted? op = op.submitted? := by
  unfold accepted?
  rw [h]

/-! ### Calls that store no entry -/

/-- No request writes an entry: entries are submitted on a way of their own. -/
theorem request_unwritten (w : Host) (access : Access) (r : Request) :
    w.store.Unwritten (w.request access r).2.store := by
  unfold request
  cases hsend : w.send access r.call r.action with
  | mk answer w₁ =>
      cases answer with
      | error e => exact (send_error hsend).store ▸ .refl w.store
      | ok a => exact Store.request_unwritten (send_ok hsend).1

/-- Whatever a watcher does when it is told, it stores nothing. -/
theorem tellWatcher_unwritten (w : Host) (notice : Notice) :
    w.store.Unwritten (w.tellWatcher notice).store := by
  rcases w.tellWatcher_store notice with hsame | ⟨waits, hwatch⟩
  · exact hsame ▸ .refl w.store
  · exact Store.watch_unwritten hwatch

theorem tellWatchers_unwritten (w : Host) (notices : List Notice) :
    w.store.Unwritten (notices.foldl tellWatcher w).store := by
  induction notices generalizing w with
  | nil => exact .refl w.store
  | cons notice notices ih => exact (tellWatcher_unwritten w notice).trans (ih _)

/-- Only the call that submits an entry stores one. -/
theorem use_unwritten (w : Host) (handle : HandleRef) {call : HandleCall}
    (h : (Op.use handle call).submitted? = none) :
    w.store.Unwritten (w.use handle call).2.store := by
  cases w.use_uses handle call with
  | stays host => exact host.symm ▸ .refl w.store
  | compares h' presented _ _ host =>
      rw [host, (checkAccess_idle w h' presented).store]
      exact .refl w.store
  | submits h' entry _ hcall => cases hcall.symm ▸ h
  | sends r _ host => exact host.symm ▸ request_unwritten w .planned r

/-! ### Calls that store one -/

/-- An entry that is submitted is stored and answered with its id, or nothing is
stored. -/
theorem append_cases (w : Host) (access : Access) (entry : Bytes) :
    (∃ cause, (w.append access entry).1 = .error cause) ∧
        (w.append access entry).2.store = w.store ∨
      ∃ id l, (w.append access entry).1 = .ok id ∧
        Store.Stores l id entry w.store (w.append access entry).2.store := by
  unfold append
  cases hsend : w.send access .append (Store.append entry) with
  | mk answer w₁ =>
      cases answer with
      | error cause => exact Or.inl ⟨⟨cause, rfl⟩, (send_error hsend).store⟩
      | ok stored =>
          obtain ⟨l, hstores⟩ := Store.append_stores (send_ok hsend).1
          exact Or.inr ⟨stored.1, l, rfl,
            hstores.thenUnwritten (tellWatchers_unwritten w₁ stored.2)⟩

/-- A handle that submits an entry either changes nothing or has the entry stored. -/
theorem appendThrough_cases (w : Host) (ledger : LedgerId) (entry : Bytes) :
    (∃ cause, (w.appendThrough ledger entry).1 = .error cause) ∧
        (w.appendThrough ledger entry).2.store = w.store ∨
      ∃ id l, (w.appendThrough ledger entry).1 = .ok (.entry id) ∧
        Store.Stores l id entry w.store (w.appendThrough ledger entry).2.store := by
  have happend := append_cases w .planned entry
  unfold appendThrough
  split
  next => exact Or.inl ⟨⟨_, rfl⟩, rfl⟩
  next =>
    split
    next => exact Or.inl ⟨⟨_, rfl⟩, rfl⟩
    next =>
      split
      next heq =>
        rw [heq] at happend
        rcases happend with ⟨-, hsame⟩ | ⟨id, l, hok, -⟩
        · exact Or.inl ⟨⟨_, rfl⟩, hsame⟩
        · cases hok
      next heq =>
        rw [heq] at happend
        rcases happend with ⟨⟨cause, herror⟩, -⟩ | ⟨id, l, hok, hstores⟩
        · cases herror
        · cases hok
          exact Or.inr ⟨_, l, rfl, hstores⟩

/-- A reader refuses to store entries. -/
theorem use_append_cases (w : Host) (handle : HandleRef) (entry : Bytes) :
    (∃ cause, (w.use handle (.append entry)).1 = .error cause) ∧
        (w.use handle (.append entry)).2.store = w.store ∨
      ∃ id l, (w.use handle (.append entry)).1 = .ok (.entry id) ∧
        Store.Stores l id entry w.store (w.use handle (.append entry)).2.store := by
  cases handle with
  | reader r => exact Or.inl ⟨⟨_, rfl⟩, rfl⟩
  | writable h => exact appendThrough_cases w (w.handleAt h).ledger entry

/-! ### Operations -/

/-- What an operation does to the entries of all ledgers. -/
inductive Writes (w w' : Host) :
    (accepted : Option Bytes) → (removed : Option LedgerId) → Prop where
  | none (h : w.store.Unwritten w'.store) : Writes w w' none none
  | one {l : LedgerId} {e : EntryId} {entry : Bytes} (h : w.store.Stores l e entry w'.store) :
      Writes w w' (some entry) none
  | clears {l : LedgerId} (h : w.store.Clears l w'.store) : Writes w w' none (some l)

theorem Effect.unwritten (h : Effect op w w' none) (hcalls : op.callsStore = false) :
    w.store.Unwritten w'.store := by
  rcases h.fences_or_grows hcalls with ⟨-, hfences⟩ | ⟨hgrows, -⟩
  · exact hfences.unwritten
  · exact hgrows.unwritten

/-- Whoever is told of a removal may create the ledger anew, without entries. -/
theorem Effect.clears (h : Effect op w w' (some l)) : w.store.Clears l w'.store := by
  cases h with
  | removes _ only removes _ told =>
      exact removes.clears (told ▸ (tellSubscribers_tells _ _ _ _).grows.unwritten)

/-- What does not go to the store accepts no entry, and removes a ledger only by a deletion. -/
theorem writes_of_not_callsStore (w : Host) (h : op.callsStore = false) :
    Writes w (w.perform op).2 (w.accepted? op) (w.removed? op) := by
  have hnone : op.submitted? = none := by
    cases op with
    | append | use => cases h
    | _ => rfl
  have heffect := perform_effect w op
  rw [accepted?_of_not_submitted hnone]
  cases hremoved : w.removed? op with
  | none =>
      rw [hremoved] at heffect
      exact .none (heffect.unwritten h)
  | some l =>
      rw [hremoved] at heffect
      exact .clears heffect.clears

/-- An operation that submits an entry stores it just when it does not fail. -/
theorem writes_of_submitted {ε α : Type} {wrap : ε → Failure} {f : α → Answer}
    {r : Except ε α × Host} (hperform : w.perform op = answer wrap f r)
    (hsubmitted : op.submitted? = some entry)
    (hcases : (∃ cause, r.1 = .error cause) ∧ r.2.store = w.store ∨
      ∃ a, r.1 = .ok a ∧ ∃ l e, Store.Stores l e entry w.store r.2.store) :
    Writes w (w.perform op).2 (w.accepted? op) none := by
  have hanswer : (w.perform op).1 = (answer wrap f r).1 := congrArg Prod.fst hperform
  rcases hcases with ⟨⟨cause, herror⟩, hsame⟩ | ⟨a, hok, l, e, hstores⟩
  · rw [accepted?_of_error (hanswer.trans (answer_of_error herror wrap f)), hperform, answer_host]
    exact .none (hsame ▸ .refl w.store)
  · rw [accepted?_of_ok (hanswer.trans (answer_of_ok hok wrap f)), hsubmitted, hperform,
      answer_host]
    exact .one hstores

/-- An operation writes what it was answered to have accepted, and clears what it removed. -/
theorem perform_writes (w : Host) (op : Op) :
    Writes w (w.perform op).2 (w.accepted? op) (w.removed? op) := by
  cases op with
  | request access r =>
      rw [accepted?_of_not_submitted rfl]
      unfold perform
      rw [answer_host]
      exact .none (request_unwritten w access r)
  | append access entry =>
      refine writes_of_submitted (f := .entry) rfl rfl ?_
      exact (append_cases w access entry).imp_right fun ⟨id, l, hok, h⟩ => ⟨id, hok, l, id, h⟩
  | use handle call =>
      by_cases hheld : w.knowsHandle handle = true
      · have hperform : w.perform (.use handle call) = answer .handle id (w.use handle call) :=
          if_pos hheld
        cases hsubmitted : (Op.use handle call).submitted? with
        | none =>
            rw [accepted?_of_not_submitted hsubmitted, hperform, answer_host]
            exact .none (use_unwritten w handle hsubmitted)
        | some entry =>
            cases call with
            | append =>
                cases hsubmitted
                refine writes_of_submitted hperform rfl ?_
                exact (use_append_cases w handle entry).imp_right
                  fun ⟨id, l, hok, h⟩ => ⟨.entry id, hok, l, id, h⟩
            | _ => cases hsubmitted
      · -- a handle that the host does not hold is refused before the store is asked
        have hperform : w.perform (.use handle call) = (.error .unknown, w) := if_neg hheld
        rw [accepted?_of_error (congrArg Prod.fst hperform), hperform]
        exact .none (.refl w.store)
  | _ => exact writes_of_not_callsStore w rfl

/-- What became of the entries of a ledger that the store holds after an operation. -/
inductive Became (w : Host) (l : LedgerId) (accepted : Option Bytes)
    (removed : Option LedgerId) (t : Table EntryId Bytes) : Prop where
  | created (new : w.store.entriesOf? l = none ∨ removed = some l)
      (elsewhere : ∀ entry e, accepted = some entry → Entry.readHeader entry ≠ .ok ⟨l, e⟩)
      (empty : t = .empty)
  | kept (stays : removed ≠ some l) (before : w.store.entriesOf? l = some t)
      (elsewhere : ∀ entry e, accepted = some entry → Entry.readHeader entry ≠ .ok ⟨l, e⟩)
  | added {t₀ : Table EntryId Bytes} {e : EntryId} {entry : Bytes} (stays : removed ≠ some l)
      (before : w.store.entriesOf? l = some t₀) (entry_accepted : accepted = some entry)
      (header : Entry.readHeader entry = .ok ⟨l, e⟩) (new : t₀.get? e = none)
      (after : t = t₀.insert e entry)

/-- How one ledger's entries look after a step, read off what the step accepted and removed. -/
theorem Writes.became {accepted : Option Bytes} {removed : Option LedgerId}
    {t : Table EntryId Bytes} (h : Writes w w' accepted removed)
    (ht : w'.store.entriesOf? l = some t) : Became w l accepted removed t := by
  cases h with
  | none h =>
      cases hbefore : w.store.entriesOf? l with
      | none => exact .created (Or.inl hbefore) (by simp) (h.fresh hbefore ht)
      | some t₀ =>
          obtain rfl : t₀ = t := Option.some.inj ((h.kept hbefore).symm.trans ht)
          exact .kept (by simp) hbefore (by simp)
  | @clears l' h =>
      by_cases hl : l' = l
      · -- whoever was told of the removal may have created it again
        exact .created (Or.inr (congrArg some hl)) (by simp) (h.fresh (Or.inl hl) ht)
      · cases hbefore : w.store.entriesOf? l with
        | none => exact .created (Or.inl hbefore) (by simp) (h.fresh (Or.inr hbefore) ht)
        | some t₀ =>
            obtain rfl : t₀ = t := Option.some.inj ((h.kept hl hbefore).symm.trans ht)
            exact .kept (by simp [hl]) hbefore (by simp)
  | @one l' e' entry' h =>
      obtain ⟨t₀, ht₀, hnew, hafter⟩ := h.written
      by_cases hl : l' = l
      · subst hl
        exact .added (by simp) ht₀ rfl h.header hnew (Option.some.inj (ht.symm.trans hafter))
      · -- the entry went to another ledger
        have helsewhere : ∀ entry e, some entry' = some entry →
            Entry.readHeader entry ≠ .ok ⟨l, e⟩ := by
          rintro entry e heq hheader
          cases heq
          cases h.header.symm.trans hheader
          exact hl rfl
        cases hbefore : w.store.entriesOf? l with
        | none => exact .created (Or.inl hbefore) helsewhere (h.fresh hbefore ht)
        | some t' =>
            obtain rfl : t' = t := Option.some.inj ((h.kept hl hbefore).symm.trans ht)
            exact .kept (by simp) hbefore helsewhere

/-! ### Runs -/

/-- A ledger that the store holds was there already with these entries, unless the
operation created it. -/
theorem recreates_iff_of_entriesOf? {t : Table EntryId Bytes}
    (ht : (w.perform op).2.store.entriesOf? l = some t) :
    w.recreates op l ↔ w.store.entriesOf? l = none ∨ w.removed? op = some l := by
  unfold recreates
  rw [Store.contains_eq_isSome_entriesOf?, Store.contains_eq_isSome_entriesOf?, ht,
    Option.isSome_eq_false_iff, Option.isNone_iff_eq_none]
  exact and_iff_right rfl

/-- The last operation had the entry accepted, or it did not create the ledger. -/
theorem acceptedSince_concat {ops : List Op} :
    AcceptedSince w (ops ++ [op]) l e entry ↔
      (w.run ops).accepted? op = some entry ∧ Entry.readHeader entry = .ok ⟨l, e⟩ ∨
        AcceptedSince w ops l e entry ∧ ¬ (w.run ops).recreates op l := by
  constructor
  · rintro ⟨pre, op', post, hsplit, haccepted, hheader, hsince⟩
    rcases concat_eq_append_cons hsplit with ⟨-, rfl, rfl⟩ | ⟨rest, rfl, rfl⟩
    · exact Or.inl ⟨haccepted, hheader⟩
    · refine Or.inr ⟨⟨pre, op', rest, rfl, haccepted, hheader, ?_⟩, hsince rest op [] rfl⟩
      intro mid op'' later hrest
      exact hsince mid op'' (later ++ [op]) (by simp [hrest])
  · rintro (⟨haccepted, hheader⟩ | ⟨⟨pre, op', post, rfl, haccepted, hheader, hsince⟩, hkept⟩)
    · refine ⟨ops, op, [], rfl, haccepted, hheader, ?_⟩
      intro mid op' rest hnil
      cases mid <;> cases hnil
    · refine ⟨pre, op', post ++ [op], by simp, haccepted, hheader, ?_⟩
      intro mid op'' rest hpost
      rcases concat_eq_append_cons hpost with ⟨-, rfl, rfl⟩ | ⟨later, -, hlater⟩
      · exact hkept
      · exact hsince mid op'' later hlater

/-- By induction on the run from its end: the last operation creates the ledger
without entries, or leaves its entries as they were, or adds the one that it had
accepted. -/
theorem run_entries (hstart : ∀ l, w.store.entriesOf? l = none) (ops : List Op)
    {t : Table EntryId Bytes} (ht : (w.run ops).store.entriesOf? l = some t) (e : EntryId)
    (entry : Bytes) : t.get? e = some entry ↔ AcceptedSince w ops l e entry := by
  induction ops using List.reverseRecOn generalizing l t e entry with
  | nil => cases (hstart l).symm.trans ht
  | append_singleton ops op ih =>
      rw [run_concat] at ht
      rw [acceptedSince_concat, recreates_iff_of_entriesOf? ht]
      cases (perform_writes (w.run ops) op).became ht with
      | created new elsewhere empty =>
          simp only [empty, Table.get?_empty, new, not_true, and_false, or_false, reduceCtorEq,
            false_iff, not_and]
          exact elsewhere entry e
      | kept stays before elsewhere =>
          have hnot : ¬ ((w.run ops).accepted? op = some entry ∧
              Entry.readHeader entry = .ok ⟨l, e⟩) := fun h => elsewhere entry e h.1 h.2
          rw [or_iff_right hnot, ih before e entry]
          simp [before, stays]
      | @added t₀ e' entry' stays before haccepted header new after =>
          have hold := ih before e entry
          rw [after, Table.get?_insert, haccepted]
          by_cases he : e' = e
          · -- nothing was accepted under this id before
            subst he
            have hnone : ¬ AcceptedSince w ops l e' entry := by
              rw [← hold, new]
              simp
            simp only [if_true, hnone, false_and, or_false]
            constructor
            · rintro heq
              cases heq
              exact ⟨rfl, header⟩
            · exact And.left
          · have hother : ¬ (some entry' = some entry ∧ Entry.readHeader entry = .ok ⟨l, e⟩) := by
              rintro ⟨heq, hheader⟩
              cases heq
              cases header.symm.trans hheader
              exact he rfl
            rw [if_neg he, or_iff_right hother, hold]
            simp [before, stays]

end Host

end FencedLedger
