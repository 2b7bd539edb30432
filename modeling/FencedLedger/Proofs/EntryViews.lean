import FencedLedger.Proofs.EntryCodec
import FencedLedger.Proofs.StoreViews

/-!
# What actions do to entries

One more view of a store: the entries of each ledger that it holds. Just one
action adds an entry, and it adds it under the ids that open the entry, where
there was none. No action replaces one, and a new ledger has none.
-/

namespace FencedLedger

namespace EntryId

variable {a b c : EntryId}

theorem le_trans (hab : a ≤ b) (hbc : b ≤ c) : a ≤ c := Int64.le_trans hab hbc

theorem le_total (a b : EntryId) : a ≤ b ∨ b ≤ a := Int64.le_total a.value b.value

theorem lt_of_le_of_ne (hle : a ≤ b) (hne : a ≠ b) : a < b :=
  Int64.lt_of_le_of_ne hle fun hvalue => hne (congrArg EntryId.mk hvalue)

/-- Asking for the last confirmed entry is not asking for an entry of a writer. -/
theorem ne_unset_of_isUser {e : EntryId} (h : e.isUser = true) : e ≠ .unset := by
  rintro rfl
  exact absurd h (by decide)

end EntryId

namespace Store

variable {s s' s'' : Store} {l : LedgerId}

/-- The entries of a ledger, if the store holds the ledger. -/
def entriesOf? (s : Store) (l : LedgerId) : Option (Table EntryId Bytes) :=
  (s.ledgers.get? l).map Ledger.entries

/-- The bytes that a ledger has under an id. -/
def entryAt? (s : Store) (l : LedgerId) (e : EntryId) : Option Bytes :=
  (s.entriesOf? l).bind fun t => t.get? e

theorem contains_eq_isSome_entriesOf? (s : Store) (l : LedgerId) :
    s.ledgers.contains l = (s.entriesOf? l).isSome := by
  simp [Table.contains, entriesOf?]

theorem entriesOf?_eq_none_iff : s.entriesOf? l = none ↔ s.ledgers.get? l = none := by
  simp [entriesOf?]

theorem entriesOf?_insert (s : Store) (l l' : LedgerId) (x : Ledger) :
    ({ s with ledgers := s.ledgers.insert l x } : Store).entriesOf? l' =
      if l = l' then some x.entries else s.entriesOf? l' := by
  unfold entriesOf?
  rw [Table.get?_insert]
  split <;> rfl

/-! ### Actions that add no entry -/

/-- No entry was added or lost, and new ledgers have none. -/
structure Unwritten (s s' : Store) : Prop where
  kept : ∀ {l t}, s.entriesOf? l = some t → s'.entriesOf? l = some t
  fresh : ∀ {l t}, s.entriesOf? l = none → s'.entriesOf? l = some t → t = .empty

theorem Unwritten.trans (h : Unwritten s s') (h' : Unwritten s' s'') : Unwritten s s'' where
  kept ht := h'.kept (h.kept ht)
  fresh {l t} hnone ht := by
    cases hmid : s'.entriesOf? l with
    | none => exact h'.fresh hmid ht
    | some t' =>
        obtain rfl : t' = t := Option.some.inj ((h'.kept hmid).symm.trans ht)
        exact h.fresh hnone hmid

theorem unwritten_of_eq (h : s'.ledgers = s.ledgers) : Unwritten s s' where
  kept ht := by rwa [entriesOf?, h]
  fresh hnone ht := by
    rw [entriesOf?, h] at ht
    cases hnone.symm.trans ht

theorem Unwritten.refl (s : Store) : Unwritten s s := unwritten_of_eq rfl

/-- A ledger may be changed in every other respect. -/
theorem unwritten_insert {x y : Ledger} (hx : s.ledgers.get? l = some x)
    (hentries : y.entries = x.entries) :
    Unwritten s { s with ledgers := s.ledgers.insert l y } := by
  have hsame : ∀ l', ({ s with ledgers := s.ledgers.insert l y } : Store).entriesOf? l' =
      s.entriesOf? l' := by
    intro l'
    rw [entriesOf?_insert]
    split
    next heq => simp [entriesOf?, ← heq, hx, hentries]
    next => rfl
  exact ⟨fun ht => (hsame _).trans ht,
    fun hnone ht => by cases hnone.symm.trans ((hsame _).symm.trans ht)⟩

/-- A fence writes nothing. -/
theorem OnlyFences.unwritten (h : OnlyFences s s') : Unwritten s s' where
  kept ht := by
    obtain ⟨x, hx, rfl⟩ := Option.map_eq_some_iff.mp ht
    obtain ⟨bit, hy⟩ := h.same hx
    simp [entriesOf?, hy]
  fresh {l t} hnone ht := by
    have habsent := h.keys l
    rw [keyOf?_eq_none_iff.mpr (entriesOf?_eq_none_iff.mp hnone), keyOf?_eq_none_iff,
      ← entriesOf?_eq_none_iff] at habsent
    cases habsent.symm.trans ht

/-- A ledger that is created has no entries. -/
theorem Grows.unwritten (h : Grows s s') : Unwritten s s' where
  kept ht := by
    obtain ⟨x, hx, rfl⟩ := Option.map_eq_some_iff.mp ht
    simp [entriesOf?, h.kept hx]
  fresh {l t} hnone ht := by
    obtain ⟨x, hx, rfl⟩ := Option.map_eq_some_iff.mp ht
    obtain ⟨key, rfl⟩ := h.fresh (entriesOf?_eq_none_iff.mp hnone) hx
    rfl

/-- An action that leaves the entries of its ledger alone writes nothing. -/
theorem change_unwritten {α : Type} {f : Ledger → α × Ledger} {a : α}
    (hentries : ∀ x, (f x).2.entries = x.entries) (h : change l f s = .ok (a, s')) :
    Unwritten s s' := by
  unfold change at h
  split at h
  next => cases h
  next x hx =>
    cases h
    exact unwritten_insert hx (hentries x)

theorem watch_unwritten {known : EntryId} {watcher : Watcher} {b : Bool}
    (h : watch l known watcher s = .ok (b, s')) : Unwritten s s' := by
  refine change_unwritten ?_ h
  intro x
  unfold Ledger.watch
  split <;> rfl

theorem unwatch_unwritten {watcher : Watcher} (h : unwatch l watcher s = .ok ((), s')) :
    Unwritten s s' := by
  unfold unwatch at h
  split at h
  next => cases h; exact .refl s
  next x hx => cases h; exact unwritten_insert hx rfl

/-- No request adds an entry. -/
theorem request_unwritten {r : Request} {a : Answer} (h : r.action s = .ok (a, s')) :
    Unwritten s s' := by
  cases request_change h with
  | none r => exact .refl s
  | bindKey hact => exact (bindKey_grows hact).unwritten
  | fence hact => exact (fence_spec hact).1.unwritten
  | noteConfirmed hact => exact change_unwritten (fun _ => rfl) hact
  | watch hact => exact watch_unwritten hact
  | unwatch hact => exact unwatch_unwritten hact

/-! ### The action that adds one, and removals -/

/-- One entry was added, under the ids that open it, where there was none. -/
structure Stores (l : LedgerId) (e : EntryId) (entry : Bytes) (s s' : Store) : Prop where
  header : Entry.readHeader entry = .ok ⟨l, e⟩
  user : e.isUser = true
  written : ∃ t, s.entriesOf? l = some t ∧ t.get? e = none ∧
    s'.entriesOf? l = some (t.insert e entry)
  kept : ∀ {l' t}, l ≠ l' → s.entriesOf? l' = some t → s'.entriesOf? l' = some t
  fresh : ∀ {l' t}, s.entriesOf? l' = none → s'.entriesOf? l' = some t → t = .empty

/-- What was stored is still stored after a step that writes nothing. -/
theorem Stores.thenUnwritten {e : EntryId} {entry : Bytes} (h : Stores l e entry s s')
    (h' : Unwritten s' s'') : Stores l e entry s s'' where
  header := h.header
  user := h.user
  written := by
    obtain ⟨t, ht, hnew, ht'⟩ := h.written
    exact ⟨t, ht, hnew, h'.kept ht'⟩
  kept hne ht := h'.kept (h.kept hne ht)
  fresh {l' t} hnone ht := by
    cases hmid : s'.entriesOf? l' with
    | none => exact h'.fresh hmid ht
    | some t' =>
        obtain rfl : t' = t := Option.some.inj ((h'.kept hmid).symm.trans ht)
        exact h.fresh hnone hmid

/-- The entry comes under its id, and nothing else of the ledger's entries changes. -/
theorem ledger_append_entries (x : Ledger) (id : EntryId) (entry : Bytes) :
    (x.append id entry).2.entries = x.entries.insert id entry := by
  unfold Ledger.append
  split
  next => rfl
  next =>
    dsimp only
    split <;> rfl

/-- An entry that the store takes is stored under the ids that open it. -/
theorem append_stores {entry : Bytes} {e : EntryId} {notices : List Notice}
    (h : append entry s = .ok ((e, notices), s')) : ∃ l, Stores l e entry s s' := by
  obtain ⟨header, x, hheader, huser, hx, hnew, heq, rfl⟩ := append_spec h
  cases heq
  have hheld : s.entriesOf? header.ledger = some x.entries := by simp [entriesOf?, hx]
  refine ⟨header.ledger, hheader, by simpa [Entry.Header.isMeta] using huser, ?_, ?_, ?_⟩
  · refine ⟨x.entries, hheld, hnew, ?_⟩
    rw [entriesOf?_insert, if_pos rfl]
    exact congrArg some (ledger_append_entries x header.entry entry)
  · intro l' t hne ht
    rwa [entriesOf?_insert, if_neg hne]
  · -- no ledger is new, as the one written to was there
    intro l' t hnone ht
    have hne : header.ledger ≠ l' := by
      rintro rfl
      cases hheld.symm.trans hnone
    rw [entriesOf?_insert, if_neg hne] at ht
    cases hnone.symm.trans ht

/-- One ledger lost its entries, and the others kept theirs. -/
structure Clears (l : LedgerId) (s s' : Store) : Prop where
  kept : ∀ {l' t}, l ≠ l' → s.entriesOf? l' = some t → s'.entriesOf? l' = some t
  fresh : ∀ {l' t}, l = l' ∨ s.entriesOf? l' = none → s'.entriesOf? l' = some t → t = .empty

/-- What is gone is still gone after a step that writes nothing. -/
theorem Removes.clears (h : Removes l s s') (h' : Unwritten s' s'') : Clears l s s'' := by
  have hentries : ∀ l', s'.entriesOf? l' = if l = l' then none else s.entriesOf? l' := by
    intro l'
    unfold entriesOf?
    rw [h.ledgers, Table.get?_erase]
    split <;> rfl
  constructor
  case kept =>
    intro l' t hne ht
    refine h'.kept ?_
    rwa [hentries, if_neg hne]
  case fresh =>
    intro l' t hcase ht
    refine h'.fresh ?_ ht
    rw [hentries]
    split
    next => rfl
    next hne => exact hcase.resolve_left hne

/-! ### Reading -/

/-- An id of a writer is answered with the entry under it. -/
theorem entry_of_entriesOf? {e : EntryId} {t : Table EntryId Bytes} (huser : e.isUser = true)
    (ht : s.entriesOf? l = some t) :
    entry l e s =
      match t.get? e with
      | none => .error (.noEntry l e)
      | some bytes => .ok (bytes, s) := by
  obtain ⟨x, hx, rfl⟩ := Option.map_eq_some_iff.mp ht
  have hresolve : x.resolve e = e := if_neg (EntryId.ne_unset_of_isUser huser)
  cases hget : x.entries.get? e <;> simp [entry, hx, hresolve, hget]

/-- The listing of a ledger has each id once, in ascending order. -/
theorem entryIds_of_entriesOf? {t : Table EntryId Bytes} (ht : s.entriesOf? l = some t) :
    ∃ ids, entryIds l s = .ok (ids, s) ∧ ids.Pairwise (· < ·) ∧ ∀ e, e ∈ ids ↔ e ∈ t.keys := by
  obtain ⟨x, hx, rfl⟩ := Option.map_eq_some_iff.mp ht
  refine ⟨x.entryIds, ?_, ?_, fun e => List.mem_mergeSort⟩
  · unfold entryIds look
    rw [hx]
  · have hsorted : x.entryIds.Pairwise fun a b => decide (a ≤ b) = true := by
      refine List.pairwise_mergeSort ?_ ?_ _
      · intro a b c hab hbc
        exact decide_eq_true (EntryId.le_trans (of_decide_eq_true hab) (of_decide_eq_true hbc))
      · intro a b
        rw [Bool.or_eq_true, decide_eq_true_iff, decide_eq_true_iff]
        exact EntryId.le_total a b
    have hdistinct : x.entryIds.Nodup :=
      (List.mergeSort_perm _ _).nodup_iff.mpr x.entries.nodup_keys
    refine (hsorted.and hdistinct).imp ?_
    rintro a b ⟨hle, hne⟩
    exact EntryId.lt_of_le_of_ne (of_decide_eq_true hle) hne

/-- An id that is taken is not taken again. -/
theorem append_of_taken {entry : Bytes} {e : EntryId} {t : Table EntryId Bytes} {old : Bytes}
    (hheader : Entry.readHeader entry = .ok ⟨l, e⟩) (huser : e.isUser = true)
    (ht : s.entriesOf? l = some t) (hold : t.get? e = some old) :
    append entry s = .error (.duplicateEntry l e) := by
  obtain ⟨x, hx, rfl⟩ := Option.map_eq_some_iff.mp ht
  have htaken : x.entries.contains e = true := by simp [Table.contains, hold]
  unfold append
  simp only [hheader, Entry.Header.isMeta, huser, Bool.not_true, Bool.false_eq_true, if_false, hx,
    htaken, if_true]

end Store

end FencedLedger
