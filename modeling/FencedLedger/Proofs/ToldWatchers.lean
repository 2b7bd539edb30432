import FencedLedger.Proofs.ConfirmedEntries

/-!
# What watchers do when they are told

An entry that confirms more is stored before anybody is told of it. The watchers whom it
concerns have left the list by then, and are told in the order of the list. Where no fault is
planned, each of them finds the ledger as it was told: whoever waits again is let wait, and is
last on the list. So all that an entry comes to, the reactions included, is one change of its
ledger and one event for each watcher who was told. Where others take turns with those who tell,
a watcher may find a later state of the ledger than it was told of.
-/

namespace FencedLedger

/-- What a watcher does that finds the ledger as it was told. -/
def Notice.reacted (notice : Notice) : Reacted :=
  match notice.watcher.reaction with
  | .record => .recorded
  | .rearm => .rearmed (.ok true)
  | .read => .read (.ok notice.confirmed)

/-- The event that such a watcher raises. -/
def Notice.event (notice : Notice) : Event := .advanced notice notice.reacted

namespace WatchList

variable {list : WatchList Watcher} {confirmed : EntryId}

/-- The list behind a watcher who was told of an advance, and may wait again. -/
def hear (confirmed : EntryId) (list : WatchList Watcher) (who : Watcher) : WatchList Watcher :=
  match who.reaction with
  | .rearm => list.register who confirmed
  | .record | .read => list

/-- Whoever makes a note or reads stays off the list. -/
theorem hear_of_not_rearm {who : Watcher} (h : who.reaction ≠ .rearm) :
    list.hear confirmed who = list := by
  unfold hear
  split
  next hrearm => exact absurd hrearm h
  next => rfl
  next => rfl

theorem hear_of_rearm {who : Watcher} (h : who.reaction = .rearm) :
    list.hear confirmed who = list.register who confirmed := by
  unfold hear
  rw [h]

theorem hear_entries {who : Watcher} (haway : list.known.get? who = none) :
    (list.hear confirmed who).known.entries =
      list.known.entries ++ if who.reaction = .rearm then [(who, confirmed)] else [] := by
  by_cases hrearm : who.reaction = .rearm
  · rw [hear_of_rearm hrearm, if_pos hrearm]
    exact Table.entries_insert_of_get?_eq_none haway confirmed
  · rw [hear_of_not_rearm hrearm, if_neg hrearm, List.append_nil]

theorem hear_get?_ne {who who' : Watcher} (hne : who ≠ who') :
    (list.hear confirmed who).known.get? who' = list.known.get? who' := by
  by_cases hrearm : who.reaction = .rearm
  · rw [hear_of_rearm hrearm]
    exact Table.get?_insert_ne _ _ hne
  · rw [hear_of_not_rearm hrearm]

/-- Of those who are told, the ones who wait again are listed with what was confirmed. -/
theorem hearAll_get? (told : List Watcher) (who : Watcher) :
    (told.foldl (hear confirmed) list).known.get? who =
      if who ∈ told ∧ who.reaction = .rearm then some confirmed else list.known.get? who := by
  induction told generalizing list with
  | nil => simp
  | cons first told ih =>
      rw [List.foldl_cons, ih]
      by_cases hfirst : first = who
      · subst hfirst
        by_cases hrearm : first.reaction = .rearm
        · simp [hear_of_rearm hrearm, register, hrearm]
        · simp [hear_of_not_rearm hrearm, hrearm]
      · have hne : who ≠ first := fun heq => hfirst heq.symm
        rw [hear_get?_ne hfirst]
        simp [hne]

/-- Of the watchers who are told, those who wait again are last, in the order in which they
were told. -/
theorem hearAll_entries {told : List Watcher} (honce : told.Nodup)
    (haway : ∀ who ∈ told, list.known.get? who = none) :
    (told.foldl (hear confirmed) list).known.entries =
      list.known.entries ++
        (told.filter fun who => who.reaction = .rearm).map fun who => (who, confirmed) := by
  induction told generalizing list with
  | nil => simp
  | cons who told ih =>
      obtain ⟨hnew, honce⟩ := List.nodup_cons.mp honce
      have hrest : ∀ who' ∈ told, (list.hear confirmed who).known.get? who' = none := by
        intro who' hwho'
        rw [hear_get?_ne (by rintro rfl; exact hnew hwho')]
        exact haway who' (List.mem_cons_of_mem _ hwho')
      rw [List.foldl_cons, ih honce hrest, hear_entries (haway who List.mem_cons_self)]
      by_cases hrearm : who.reaction = .rearm <;> simp [hrearm]

end WatchList

namespace Ledger

variable {x : Ledger} {id : EntryId} {entry : Bytes}

/-- Whether a watcher leaves the list when an entry is stored: the entry confirms more, and
more than the watcher knows of. -/
def releases (x : Ledger) (entry : Bytes) (known : EntryId) : Bool :=
  x.confirmed < Entry.raise x.confirmed entry && known < Entry.raise x.confirmed entry

/-- The watchers whom an entry concerns, in list order. -/
def woken (x : Ledger) (entry : Bytes) : List Watcher :=
  (x.watches.known.entries.filter fun b => x.releases entry b.2).map Prod.fst

/-- The watchers who wait for less are taken off the list, in its order. -/
theorem append_woken (x : Ledger) (id : EntryId) (entry : Bytes) :
    (x.append id entry).1 = x.woken entry ∧
      (x.append id entry).2.watches =
        ⟨x.watches.known.filter fun _ known => !x.releases entry known⟩ := by
  have hconfirmed := x.append_confirmed id entry
  rcases x.append_cases id entry with ⟨hnone, hsame, hstays⟩ | ⟨after, hlt, hready, hleft, hafter⟩
  · have hnot : ¬ x.confirmed < Entry.raise x.confirmed entry := by
      rw [← hconfirmed, hstays]
      exact EntryId.not_lt_self _
    have hkeeps : ∀ known, x.releases entry known = false := by simp [releases, hnot]
    rw [hnone, hsame]
    refine ⟨by simp [woken, hkeeps], congrArg WatchList.mk (Table.ext ?_)⟩
    exact (List.filter_eq_self.mpr fun b _ => by simp [hkeeps]).symm
  · rw [hafter] at hconfirmed
    have hreleases : ∀ known, x.releases entry known = decide (known < after) := by
      simp [releases, ← hconfirmed, hlt]
    rw [hready, hleft]
    unfold woken WatchList.takeReady
    simp only [hreleases]
    exact ⟨trivial, trivial⟩

/-- The ledger once an entry is stored and everybody was told. -/
def accept (x : Ledger) (id : EntryId) (entry : Bytes) : Ledger :=
  { (x.append id entry).2 with
    watches := (x.woken entry).foldl (WatchList.hear (x.append id entry).2.confirmed)
      (x.append id entry).2.watches }

/-- An entry changes nothing else of its ledger. -/
theorem append_rest (x : Ledger) (id : EntryId) (entry : Bytes) :
    (x.append id entry).2.key = x.key ∧ (x.append id entry).2.fenced = x.fenced ∧
      (x.append id entry).2.explicitConfirmed = x.explicitConfirmed := by
  unfold append
  split
  next => exact ⟨rfl, rfl, rfl⟩
  next =>
    dsimp only
    split <;> exact ⟨rfl, rfl, rfl⟩

/-- An entry changes three parts of its ledger. -/
theorem accept_eq (x : Ledger) (id : EntryId) (entry : Bytes) :
    x.accept id entry =
      { x with
        entries := x.entries.insert id entry
        confirmed := Entry.raise x.confirmed entry
        watches := (x.accept id entry).watches } := by
  obtain ⟨hkey, hfenced, hstated⟩ := x.append_rest id entry
  have hentries := Store.ledger_append_entries x id entry
  have hconfirmed := x.append_confirmed id entry
  unfold accept
  rw [← hkey, ← hfenced, ← hstated, ← hentries, ← hconfirmed]

theorem accept_confirmed (x : Ledger) (id : EntryId) (entry : Bytes) :
    (x.accept id entry).confirmed = Entry.raise x.confirmed entry :=
  x.append_confirmed id entry

/-- The woken watchers leave, and those of them who wait again are back as the last. -/
theorem accept_watches (x : Ledger) (id : EntryId) (entry : Bytes) :
    (x.accept id entry).watches.known.entries =
      (x.watches.known.entries.filter fun b => !x.releases entry b.2) ++
        ((x.woken entry).filter fun who => who.reaction = .rearm).map fun who =>
          (who, Entry.raise x.confirmed entry) := by
  have honce : (x.woken entry).Nodup := Table.nodup_filter x.watches.known.distinct
  have haway : ∀ who ∈ x.woken entry,
      (x.watches.known.filter fun _ known => !x.releases entry known).get? who = none := by
    intro who hwho
    obtain ⟨⟨_, known⟩, hmem, rfl⟩ := List.mem_map.mp hwho
    obtain ⟨hlisted, hreleased⟩ := List.mem_filter.mp hmem
    rw [Table.get?_filter_value, Table.get?_eq_some_iff.mpr hlisted]
    exact Option.filter_eq_none_iff.mpr (by simpa using hreleased)
  unfold accept
  rw [(x.append_woken id entry).2, x.append_confirmed id entry]
  exact WatchList.hearAll_entries honce haway

end Ledger

/-- A wait for more than what is confirmed is granted. -/
theorem Store.watch_of_current {s : Store} {l : LedgerId} {x : Ledger}
    (hx : s.ledgers.get? l = some x) (who : Watcher) :
    Store.watch l x.confirmed who s =
      .ok (true, { s with
        ledgers := s.ledgers.insert l
          { x with watches := x.watches.register who x.confirmed } }) := by
  unfold Store.watch Store.change Ledger.watch
  rw [hx]
  simp only [EntryId.not_lt_self, if_false]

namespace Host

variable {w : Host} {l : LedgerId} {x : Ledger}

/-- A watcher who finds the ledger as it was told. -/
theorem tellWatcher_of_current (hunplanned : w.faults = none)
    (hx : w.store.ledgers.get? l = some x) (who : Watcher) :
    w.tellWatcher ⟨who, l, x.confirmed⟩ =
      { w with
        store := { w.store with
          ledgers := w.store.ledgers.insert l { x with watches := x.watches.hear x.confirmed who } }
        events := w.events ++ [Notice.event ⟨who, l, x.confirmed⟩] } := by
  have hstays : w.store.ledgers.insert l x = w.store.ledgers := Table.insert_of_get? hx
  unfold tellWatcher Notice.event Notice.reacted WatchList.hear
  dsimp only
  cases who.reaction with
  | record =>
      dsimp only
      rw [hstays]
      rfl
  | rearm =>
      dsimp only
      rw [call_of_unplanned hunplanned]
      unfold ask
      rw [Store.watch_of_current hx who]
      rfl
  | read =>
      dsimp only
      rw [call_of_unplanned hunplanned, hstays]
      unfold ask Store.confirmed Store.look
      rw [hx]
      rfl

/-- By induction on those who are told: nobody moves what is confirmed, so the next one finds
the ledger as it was told, too. -/
theorem tellWatchers_of_current (hunplanned : w.faults = none)
    (hx : w.store.ledgers.get? l = some x) (told : List Watcher) :
    (told.map fun who => (⟨who, l, x.confirmed⟩ : Notice)).foldl tellWatcher w =
      { w with
        store := { w.store with
          ledgers := w.store.ledgers.insert l
            { x with watches := told.foldl (WatchList.hear x.confirmed) x.watches } }
        events := w.events ++ told.map fun who => Notice.event ⟨who, l, x.confirmed⟩ } := by
  induction told generalizing w x with
  | nil =>
      have hstays : w.store.ledgers.insert l x = w.store.ledgers := Table.insert_of_get? hx
      simp [hstays]
  | cons who told ih =>
      rw [List.map_cons, List.foldl_cons, tellWatcher_of_current hunplanned hx who]
      have hrest := ih
        (w := { w with
          store := { w.store with
            ledgers := w.store.ledgers.insert l
              { x with watches := x.watches.hear x.confirmed who } }
          events := w.events ++ [Notice.event ⟨who, l, x.confirmed⟩] })
        (x := { x with watches := x.watches.hear x.confirmed who })
        hunplanned (Table.get?_insert_self _ _ _)
      rw [hrest]
      simp [Table.insert_insert]

end Host

/-! ### Entries that are accepted -/

/-- An entry that nothing stands against is stored, and wakes those whom it concerns. -/
theorem Store.append_of_accepted {s : Store} {l : LedgerId} {e : EntryId} {x : Ledger}
    {entry : Bytes} (hheader : Entry.readHeader entry = .ok ⟨l, e⟩) (huser : e.isUser = true)
    (hx : s.ledgers.get? l = some x) (hnew : x.entries.get? e = none) :
    Store.append entry s =
      .ok ((e, (x.woken entry).map fun who => ⟨who, l, (x.append e entry).2.confirmed⟩),
        { s with ledgers := s.ledgers.insert l (x.append e entry).2 }) := by
  have huser' : (⟨l, e⟩ : Entry.Header).isMeta = false := by simp [Entry.Header.isMeta, huser]
  have hnew' : x.entries.contains e = false := by simp [Table.contains, hnew]
  rw [← (x.append_woken e entry).1]
  unfold Store.append
  simp only [hheader, huser', hx, hnew', if_false, Bool.false_eq_true]

namespace Host

variable {w : Host} {l : LedgerId} {e : EntryId} {x : Ledger} {entry : Bytes}

/-- The host once an entry is stored in a ledger and everybody was told. -/
def accepting (w : Host) (l : LedgerId) (e : EntryId) (x : Ledger) (entry : Bytes) : Host :=
  { w with
    store := { w.store with ledgers := w.store.ledgers.insert l (x.accept e entry) }
    events := w.events ++ (x.woken entry).map fun who =>
      Notice.event ⟨who, l, (x.accept e entry).confirmed⟩ }

/-- Where no fault is planned, an entry that the ledger takes is stored and told of. -/
theorem append_of_accepted (hunplanned : w.faults = none) (access : Access)
    (hheader : Entry.readHeader entry = .ok ⟨l, e⟩) (huser : e.isUser = true)
    (hx : w.store.ledgers.get? l = some x) (hnew : x.entries.get? e = none) :
    w.append access entry = (.ok e, w.accepting l e x entry) := by
  unfold append
  rw [send_of_unplanned hunplanned]
  unfold ask
  rw [Store.append_of_accepted hheader huser hx hnew]
  dsimp only
  have htold := tellWatchers_of_current
    (w := { w with store := { w.store with
      ledgers := w.store.ledgers.insert l (x.append e entry).2 } })
    (l := l) (x := (x.append e entry).2) hunplanned (Table.get?_insert_self _ _ _) (x.woken entry)
  rw [htold]
  dsimp only
  rw [Table.insert_insert]
  rfl

/-- Without a fault plan an entry is refused, and leaves the host as it is, or accepted. -/
theorem append_unplanned_cases (hunplanned : w.faults = none) (access : Access) (entry : Bytes) :
    (∃ cause, w.append access entry = (.error cause, w)) ∨
      ∃ l e x, Entry.readHeader entry = .ok ⟨l, e⟩ ∧ e.isUser = true ∧
        w.store.ledgers.get? l = some x ∧ x.entries.get? e = none ∧
        w.append access entry = (.ok e, w.accepting l e x entry) := by
  cases hstored : Store.append entry w.store with
  | error cause =>
      refine Or.inl ⟨cause, ?_⟩
      unfold append
      rw [send_of_unplanned hunplanned]
      unfold ask
      rw [hstored]
  | ok stored =>
      obtain ⟨⟨e, notices⟩, s⟩ := stored
      obtain ⟨l, hstores⟩ := Store.append_stores hstored
      obtain ⟨t, ht, hnew, -⟩ := hstores.written
      obtain ⟨x, hx, rfl⟩ := Option.map_eq_some_iff.mp ht
      exact Or.inr ⟨l, e, x, hstores.header, hstores.user, hx, hnew,
        append_of_accepted hunplanned access hstores.header hstores.user hx hnew⟩

end Host

end FencedLedger
