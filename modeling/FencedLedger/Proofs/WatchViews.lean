import FencedLedger.Proofs.Effects

/-!
# What actions do to those who wait

Watchers depend on two more views of a store: the entry beyond which each of
them waits to hear, and the last confirmed entry of each ledger. Four actions
concern them: waiting, waiting no more, an entry that tells of a later confirmed
one, and the removal of a ledger. All others leave who waits alone and keep what
is confirmed.
-/

namespace FencedLedger

namespace EntryId

variable {a b c : EntryId}

theorem not_lt_self (a : EntryId) : ¬ a < a := Int64.lt_irrefl

theorem not_lt_of_lt (h : ¬ a < c) (hab : a < b) : ¬ b < c := fun hbc =>
  h (Int64.lt_trans hab hbc)

end EntryId

namespace Store

variable {s s' : Store} {l : LedgerId}

/-- The entry beyond which a watcher waits to hear, if it waits. -/
def waiting? (s : Store) (l : LedgerId) (who : Watcher) : Option EntryId :=
  (s.ledgers.get? l).bind fun x => x.watches.known.get? who

/-- The last confirmed entry of a ledger, if the store holds the ledger. -/
def confirmedOf? (s : Store) (l : LedgerId) : Option EntryId :=
  (s.ledgers.get? l).map Ledger.confirmed

theorem waiting?_insert (s : Store) (l l' : LedgerId) (x : Ledger) (who : Watcher) :
    ({ s with ledgers := s.ledgers.insert l x } : Store).waiting? l' who =
      if l = l' then x.watches.known.get? who else s.waiting? l' who := by
  unfold waiting?
  rw [Table.get?_insert]
  split <;> rfl

theorem confirmedOf?_insert (s : Store) (l l' : LedgerId) (x : Ledger) :
    ({ s with ledgers := s.ledgers.insert l x } : Store).confirmedOf? l' =
      if l = l' then some x.confirmed else s.confirmedOf? l' := by
  unfold confirmedOf?
  rw [Table.get?_insert]
  split <;> rfl

theorem confirmedOf?_insert_same {x y : Ledger} (hx : s.ledgers.get? l = some x)
    (hconfirmed : y.confirmed = x.confirmed) (l' : LedgerId) :
    ({ s with ledgers := s.ledgers.insert l y } : Store).confirmedOf? l' = s.confirmedOf? l' := by
  rw [confirmedOf?_insert]
  split
  next heq => simp [confirmedOf?, ← heq, hx, hconfirmed]
  next => rfl

/-- Who waits is on a ledger that the store holds. -/
theorem exists_confirmedOf? {who : Watcher} {known : EntryId}
    (h : s.waiting? l who = some known) : ∃ c, s.confirmedOf? l = some c := by
  obtain ⟨x, hx, -⟩ := Option.bind_eq_some_iff.mp h
  exact ⟨x.confirmed, by simp [confirmedOf?, hx]⟩

/-! ### Actions that leave watchers alone -/

/-- Nobody starts or stops waiting, and what is confirmed stays. -/
structure Undisturbed (s s' : Store) : Prop where
  waiting : ∀ l who, s'.waiting? l who = s.waiting? l who
  confirmed : ∀ {l c}, s.confirmedOf? l = some c → s'.confirmedOf? l = some c

theorem Undisturbed.refl (s : Store) : Undisturbed s s := ⟨fun _ _ => rfl, id⟩

/-- A ledger may be changed in every other respect. -/
theorem undisturbed_insert {x y : Ledger} (hx : s.ledgers.get? l = some x)
    (hwatches : y.watches = x.watches) (hconfirmed : y.confirmed = x.confirmed) :
    Undisturbed s { s with ledgers := s.ledgers.insert l y } where
  waiting l' who := by
    rw [waiting?_insert]
    split
    next heq => simp [waiting?, ← heq, hx, hwatches]
    next => rfl
  confirmed hc := (confirmedOf?_insert_same hx hconfirmed _).trans hc

/-- A fence changes no wait and nothing that is confirmed. -/
theorem OnlyFences.undisturbed (h : OnlyFences s s') : Undisturbed s s' where
  waiting l who := by
    unfold waiting?
    cases hx : s.ledgers.get? l with
    | some x =>
        obtain ⟨bit, hy⟩ := h.same hx
        rw [hy]
        rfl
    | none =>
        have habsent := h.keys l
        rw [keyOf?_eq_none_iff.mpr hx, keyOf?_eq_none_iff] at habsent
        rw [habsent]
  confirmed {l c} hc := by
    obtain ⟨x, hx, rfl⟩ := Option.map_eq_some_iff.mp hc
    obtain ⟨bit, hy⟩ := h.same hx
    simp [confirmedOf?, hy]

/-- Nobody waits on a new ledger. -/
theorem Grows.undisturbed (h : Grows s s') : Undisturbed s s' where
  waiting l who := by
    unfold waiting?
    cases hx : s.ledgers.get? l with
    | some x => rw [h.kept hx]
    | none =>
        cases hy : s'.ledgers.get? l with
        | none => rfl
        | some y =>
            obtain ⟨key, rfl⟩ := h.fresh hx hy
            rfl
  confirmed {l c} hc := by
    obtain ⟨x, hx, rfl⟩ := Option.map_eq_some_iff.mp hc
    simp [confirmedOf?, h.kept hx]

/-! ### Waiting, and waiting no more -/

/-- A wait is refused just when the ledger is beyond what the watcher knows of,
and then it leaves the store as it is. -/
theorem watch_spec {known : EntryId} {who : Watcher} {waits : Bool}
    (h : watch l known who s = .ok (waits, s')) :
    ∃ c, s.confirmedOf? l = some c ∧
      (waits = false ∧ known < c ∧ s' = s ∨
        waits = true ∧ ¬ known < c ∧ (∀ l', s'.confirmedOf? l' = s.confirmedOf? l') ∧
          ∀ l' who', s'.waiting? l' who' =
            if l = l' ∧ who = who' then some known else s.waiting? l' who') := by
  unfold watch change at h
  split at h
  next => cases h
  next x hx =>
    refine ⟨x.confirmed, by simp [confirmedOf?, hx], ?_⟩
    unfold Ledger.watch at h
    dsimp only at h
    split at h
    next hlt =>
      cases h
      refine Or.inl ⟨rfl, hlt, ?_⟩
      rw [Table.insert_of_get? hx]
    next hle =>
      cases h
      refine Or.inr ⟨rfl, hle, confirmedOf?_insert_same hx rfl, fun l' who' => ?_⟩
      rw [waiting?_insert]
      by_cases heq : l = l'
      · subst heq
        simp [WatchList.register, Table.get?_insert, waiting?, hx]
      · simp [heq]

/-- Whoever waits no more is off one list, and nothing else changes. -/
theorem unwatch_spec {who : Watcher} (h : unwatch l who s = .ok ((), s')) :
    (∀ l', s'.confirmedOf? l' = s.confirmedOf? l') ∧
      ∀ l' who', s'.waiting? l' who' =
        if l = l' ∧ who = who' then none else s.waiting? l' who' := by
  unfold unwatch at h
  split at h
  next hnone =>
    cases h
    refine ⟨fun _ => rfl, fun l' who' => ?_⟩
    split
    next hsame =>
      obtain ⟨rfl, rfl⟩ := hsame
      simp [waiting?, hnone]
    next => rfl
  next x hx =>
    cases h
    refine ⟨confirmedOf?_insert_same hx rfl, fun l' who' => ?_⟩
    rw [waiting?_insert]
    by_cases heq : l = l'
    · subst heq
      simp [Ledger.unwatch, WatchList.cancel, Table.get?_erase, waiting?, hx]
    · simp [heq]

/-! ### Entries -/

/-- More is confirmed of a ledger, and those who waited for that wait no more,
but are to be told. -/
structure Raises (l : LedgerId) (after : EntryId) (notices : List Notice) (s s' : Store) :
    Prop where
  before : ∃ c, s.confirmedOf? l = some c ∧ c < after
  confirmed : ∀ l', s'.confirmedOf? l' = if l = l' then some after else s.confirmedOf? l'
  waiting : ∀ l' who, s'.waiting? l' who =
    if l = l' then (s.waiting? l' who).filter (fun known => !decide (known < after))
    else s.waiting? l' who
  once : notices.Nodup
  notices : ∀ n, n ∈ notices ↔ n.ledger = l ∧ n.confirmed = after ∧
    ∃ known, s.waiting? l n.watcher = some known ∧ known < after

/-- Who is ready is taken off the list, and is listed no more. The others stay. -/
theorem takeReady_spec (x : WatchList Watcher) (after : EntryId) :
    (x.takeReady after).1.Nodup ∧
      (∀ who, who ∈ (x.takeReady after).1 ↔ ∃ known, x.known.get? who = some known ∧
        known < after) ∧
      ∀ who, (x.takeReady after).2.known.get? who =
        (x.known.get? who).filter fun known => !decide (known < after) := by
  refine ⟨Table.nodup_filter x.known.distinct, fun who => ?_, fun who => ?_⟩
  · unfold WatchList.takeReady
    simp only [List.mem_map, List.mem_filter, decide_eq_true_eq]
    constructor
    · rintro ⟨⟨_, known⟩, ⟨hmem, hlt⟩, rfl⟩
      exact ⟨known, Table.get?_eq_some_iff.mpr hmem, hlt⟩
    · rintro ⟨known, hget, hlt⟩
      exact ⟨(who, known), ⟨Table.get?_eq_some_iff.mp hget, hlt⟩, rfl⟩
  · exact Table.get?_filter_value x.known _ who

/-- What is confirmed of a ledger goes up with its watchers split at that. -/
theorem raises_insert {x y : Ledger} {after : EntryId} (hx : s.ledgers.get? l = some x)
    (hlt : x.confirmed < after) (hconfirmed : y.confirmed = after)
    (hwatches : y.watches = (x.watches.takeReady after).2) :
    Raises l after ((x.watches.takeReady after).1.map fun who => ⟨who, l, after⟩) s
      { s with ledgers := s.ledgers.insert l y } := by
  obtain ⟨hnodup, hready, hleft⟩ := takeReady_spec x.watches after
  constructor
  case before => exact ⟨x.confirmed, by simp [confirmedOf?, hx], hlt⟩
  case confirmed =>
    intro l'
    rw [confirmedOf?_insert, hconfirmed]
  case waiting =>
    intro l' who
    rw [waiting?_insert]
    split
    next heq =>
      subst heq
      simp [hwatches, hleft, waiting?, hx]
    next => rfl
  case once =>
    refine List.Pairwise.map _ ?_ hnodup
    intro a b hne heq
    exact hne (congrArg Notice.watcher heq)
  case notices =>
    -- those who are taken are those who wait for less than is confirmed now
    have hwaiting : ∀ who, s.waiting? l who = x.watches.known.get? who := by simp [waiting?, hx]
    rintro ⟨who, l', told⟩
    simp only [List.mem_map, Notice.mk.injEq, hready, hwaiting]
    constructor
    · rintro ⟨_, hwho, rfl, rfl, rfl⟩
      exact ⟨rfl, rfl, hwho⟩
    · rintro ⟨rfl, rfl, hwho⟩
      exact ⟨who, hwho, rfl, rfl, rfl⟩

end Store

/-- An entry confirms more, and then those who wait for that are taken off the list, or it does
not. -/
theorem Ledger.append_cases (x : Ledger) (id : EntryId) (entry : Bytes) :
    ((x.append id entry).1 = [] ∧ (x.append id entry).2.watches = x.watches ∧
        (x.append id entry).2.confirmed = x.confirmed) ∨
      ∃ after, x.confirmed < after ∧
        (x.append id entry).1 = (x.watches.takeReady after).1 ∧
        (x.append id entry).2.watches = (x.watches.takeReady after).2 ∧
        (x.append id entry).2.confirmed = after := by
  unfold Ledger.append
  dsimp only
  split
  next => exact Or.inl ⟨rfl, rfl, rfl⟩
  next after _ =>
    split
    next hlt => exact Or.inr ⟨after, hlt, rfl, rfl, rfl⟩
    next => exact Or.inl ⟨rfl, rfl, rfl⟩

namespace Store

variable {s s' : Store} {l : LedgerId}

/-- An entry that is stored leaves the watchers alone, or raises what is confirmed
of its ledger. -/
theorem append_cases {entry : Bytes} {id : EntryId} {notices : List Notice}
    (h : append entry s = .ok ((id, notices), s')) :
    ∃ header, Entry.readHeader entry = .ok header ∧
      (notices = [] ∧ Undisturbed s s' ∧
          s'.confirmedOf? header.ledger = s.confirmedOf? header.ledger ∨
        ∃ after, Raises header.ledger after notices s s') := by
  obtain ⟨header, x, hheader, -, hx, -, heq, rfl⟩ := append_spec h
  cases heq
  refine ⟨header, hheader, ?_⟩
  rcases x.append_cases header.entry entry with
    ⟨hready, hwatches, hconfirmed⟩ | ⟨after, hlt, hready, hwatches, hconfirmed⟩
  · rw [hready]
    exact Or.inl ⟨rfl, undisturbed_insert hx hwatches hconfirmed,
      confirmedOf?_insert_same hx hconfirmed _⟩
  · refine Or.inr ⟨after, ?_⟩
    rw [hready, hconfirmed]
    exact raises_insert hx hlt hconfirmed hwatches

/-- What was confirmed up to somewhere still is. -/
theorem Raises.confirmed_le {after c told : EntryId} {notices : List Notice}
    (h : Raises l after notices s s') {l' : LedgerId} (hc : s.confirmedOf? l' = some c)
    (hle : ¬ c < told) : ∃ c', s'.confirmedOf? l' = some c' ∧ ¬ c' < told := by
  rw [h.confirmed]
  split
  next hsame =>
    obtain ⟨before, hbefore, hlt⟩ := h.before
    rw [hsame] at hbefore
    cases hbefore.symm.trans hc
    exact ⟨after, rfl, EntryId.not_lt_of_lt hle hlt⟩
  next => exact ⟨c, hc, hle⟩

/-! ### Removals and other requests -/

theorem Removes.confirmedOf? (h : Removes l s s') (l' : LedgerId) :
    s'.confirmedOf? l' = if l = l' then none else s.confirmedOf? l' := by
  unfold Store.confirmedOf?
  rw [h.ledgers, Table.get?_erase]
  split <;> rfl

theorem Removes.waiting? (h : Removes l s s') (l' : LedgerId) (who : Watcher) :
    s'.waiting? l' who = if l = l' then none else s.waiting? l' who := by
  unfold Store.waiting?
  rw [h.ledgers, Table.get?_erase]
  split <;> rfl

theorem noteConfirmed_undisturbed {stated : Bytes}
    (h : noteConfirmed l stated s = .ok ((), s')) : Undisturbed s s' := by
  unfold noteConfirmed change at h
  split at h
  next => cases h
  next x hx =>
    cases h
    exact undisturbed_insert hx rfl rfl

end Store

/-- Whether a request lets somebody wait, or wait no more. -/
def Request.concernsWatchers : Request → Bool
  | .watch .. | .unwatch .. => true
  | _ => false

/-- Only requests to wait, or to wait no more, concern watchers. -/
theorem Request.undisturbed {r : Request} {a : Answer} {s s' : Store}
    (hr : r.concernsWatchers = false) (h : r.action s = .ok (a, s')) : s.Undisturbed s' := by
  cases Store.request_change h with
  | none r => exact .refl s
  | bindKey hact => exact (Store.bindKey_grows hact).undisturbed
  | fence hact => exact (Store.fence_spec hact).1.undisturbed
  | noteConfirmed hact => exact Store.noteConfirmed_undisturbed hact
  | watch | unwatch => cases hr

end FencedLedger
