import FencedLedger.Proofs.AcceptedEntries
import FencedLedger.Proofs.StoreAsks
import FencedLedger.Proofs.WatchViews
import Mathlib.Order.Bounds.Defs

/-!
# What is confirmed of a ledger

The last confirmed entry of a ledger is the latest that any of its stored entries tells
of, and none as long as they tell of none. The store does not look that up: it goes along
with each entry that is stored. The law is an invariant of whatever a store is asked, so
it does not matter in which order entries came, and nothing but a stored entry moves what
is confirmed while the ledger is there.
-/

namespace FencedLedger

namespace EntryId

variable {a b : EntryId}

theorem le_refl (a : EntryId) : a ≤ a := Int64.le_refl a.value

theorem le_of_lt (h : a < b) : a ≤ b := Int64.le_of_lt h

theorem le_of_not_lt (h : ¬ a < b) : b ≤ a := Int64.not_lt.mp h

theorem le_antisymm (hab : a ≤ b) (hba : b ≤ a) : a = b := by
  cases a
  cases b
  exact congrArg EntryId.mk (Int64.le_antisymm hab hba)

end EntryId

/-- What is confirmed once an entry is stored, if `c` was before. -/
def Entry.raise (c : EntryId) (entry : Bytes) : EntryId :=
  match confirmed? entry with
  | none => c
  | some told => if c < told then told else c

/-- An entry never takes back what was confirmed. -/
theorem Entry.le_raise (c : EntryId) (entry : Bytes) : c ≤ raise c entry := by
  unfold raise
  split
  next => exact EntryId.le_refl c
  next =>
    split
    next hlt => exact EntryId.le_of_lt hlt
    next => exact EntryId.le_refl c

/-- Storing an entry leaves what is confirmed as it is, or the entry tells of more. -/
theorem Entry.raise_cases (c : EntryId) (entry : Bytes) :
    raise c entry = c ∨ confirmed? entry = some (raise c entry) := by
  unfold raise
  split
  next => exact Or.inl rfl
  next told htold =>
    split
    next => exact Or.inr htold
    next => exact Or.inl rfl

/-- What an entry tells of is confirmed by it. -/
theorem Entry.told_le_raise {entry : Bytes} {told : EntryId} (c : EntryId)
    (h : confirmed? entry = some told) : told ≤ raise c entry := by
  unfold raise
  rw [h]
  dsimp only
  split
  next => exact EntryId.le_refl told
  next hnot => exact EntryId.le_of_not_lt hnot

/-- The ledger goes along with the entry that it takes. -/
theorem Ledger.append_confirmed (x : Ledger) (id : EntryId) (entry : Bytes) :
    (x.append id entry).2.confirmed = Entry.raise x.confirmed entry := by
  unfold Ledger.append Entry.raise
  cases Entry.confirmed? entry with
  | none => rfl
  | some told =>
      dsimp only
      split <;> rfl

namespace Store

variable {s s' : Store} {l : LedgerId} {c c' : EntryId} {ask : Ask}

/-! ### What an ask does to a log -/

/-- The entries of a ledger and the last confirmed one, if the store holds the ledger. -/
def logOf? (s : Store) (l : LedgerId) : Option (Table EntryId Bytes × EntryId) :=
  (s.ledgers.get? l).map fun x => (x.entries, x.confirmed)

theorem confirmedOf?_eq_logOf? (s : Store) (l : LedgerId) :
    s.confirmedOf? l = (s.logOf? l).map Prod.snd := by
  rw [confirmedOf?, logOf?, Option.map_map]
  rfl

theorem entriesOf?_eq_logOf? (s : Store) (l : LedgerId) :
    s.entriesOf? l = (s.logOf? l).map Prod.fst := by
  rw [entriesOf?, logOf?, Option.map_map]
  rfl

theorem logOf?_insert (s : Store) (l l' : LedgerId) (x : Ledger) :
    ({ s with ledgers := s.ledgers.insert l x } : Store).logOf? l' =
      if l = l' then some (x.entries, x.confirmed) else s.logOf? l' := by
  unfold logOf?
  rw [Table.get?_insert]
  split <;> rfl

theorem logOf?_insert_same {x y : Ledger} (hx : s.ledgers.get? l = some x)
    (hentries : y.entries = x.entries) (hconfirmed : y.confirmed = x.confirmed) (l' : LedgerId) :
    ({ s with ledgers := s.ledgers.insert l y } : Store).logOf? l' = s.logOf? l' := by
  rw [logOf?_insert]
  split
  next heq => simp [logOf?, ← heq, hx, hentries, hconfirmed]
  next => rfl

/-- An action that leaves entries and the confirmed one alone leaves every log as it was. -/
theorem change_logOf? {α : Type} {f : Ledger → α × Ledger} {a : α}
    (hentries : ∀ x, (f x).2.entries = x.entries)
    (hconfirmed : ∀ x, (f x).2.confirmed = x.confirmed) (h : change l f s = .ok (a, s'))
    (l' : LedgerId) : s'.logOf? l' = s.logOf? l' := by
  unfold change at h
  split at h
  next => cases h
  next x hx =>
    cases h
    exact logOf?_insert_same hx (hentries x) (hconfirmed x) l'

theorem watch_logOf? {known : EntryId} {watcher : Watcher} {b : Bool}
    (h : watch l known watcher s = .ok (b, s')) (l' : LedgerId) :
    s'.logOf? l' = s.logOf? l' := by
  refine change_logOf? ?_ ?_ h l' <;> intro x <;> unfold Ledger.watch <;> split <;> rfl

theorem unwatch_logOf? {watcher : Watcher} (h : unwatch l watcher s = .ok ((), s'))
    (l' : LedgerId) : s'.logOf? l' = s.logOf? l' := by
  unfold unwatch at h
  split at h
  next => cases h; rfl
  next x hx => cases h; exact logOf?_insert_same (y := x.unwatch watcher) hx rfl rfl l'

/-- What a store that was asked for something did to the log of a ledger. -/
inductive LogChange (l : LedgerId) (s : Store) : Ask → Store → Prop where
  | kept {ask : Ask} {s' : Store} (same : s'.logOf? l = s.logOf? l) : LogChange l s ask s'
  | created {ask : Ask} {s' : Store} (absent : s.logOf? l = none)
      (new : s'.logOf? l = some (.empty, .unset)) : LogChange l s ask s'
  | removed {present : Subscriber → Bool} {s' : Store} (gone : s'.logOf? l = none) :
      LogChange l s (.remove present l) s'
  | added {entry : Bytes} {e : EntryId} {t : Table EntryId Bytes} {c : EntryId} {s' : Store}
      (header : Entry.readHeader entry = .ok ⟨l, e⟩)
      (before : s.logOf? l = some (t, c)) (new : t.get? e = none)
      (after : s'.logOf? l = some (t.insert e entry, Entry.raise c entry)) :
      LogChange l s (.append entry) s'

/-- No request confirms anything. Binding a key may create a ledger, of which nothing is
confirmed. -/
theorem request_logChange (l : LedgerId) (r : Request) {a : Answer}
    (h : r.action s = .ok (a, s')) : LogChange l s (.request r) s' := by
  cases request_change h with
  | none r => exact .kept rfl
  | @bindKey l' secret _ hact =>
      rcases bindKey_cases hact with hcreates | ⟨rfl, -⟩
      · have habsent := keyOf?_eq_none_iff.mp hcreates.absent
        rw [hcreates.eq]
        by_cases hl : l' = l
        · subst hl
          refine .created (by simp [logOf?, habsent]) ?_
          rw [logOf?_insert, if_pos rfl]
          rfl
        · refine .kept ?_
          rw [logOf?_insert, if_neg hl]
      · exact .kept rfl
  | fence hact => exact .kept (change_logOf? (fun _ => rfl) (fun _ => rfl) hact l)
  | noteConfirmed hact => exact .kept (change_logOf? (fun _ => rfl) (fun _ => rfl) hact l)
  | watch hact => exact .kept (watch_logOf? hact l)
  | unwatch hact => exact .kept (unwatch_logOf? hact l)

/-- An entry goes to one ledger, and what is confirmed of it goes along. -/
theorem append_logChange (l : LedgerId) {entry : Bytes} {r : EntryId × List Notice}
    (h : append entry s = .ok (r, s')) : LogChange l s (.append entry) s' := by
  obtain ⟨header, x, hheader, -, hx, hnew, -, rfl⟩ := append_spec h
  by_cases hl : header.ledger = l
  · subst hl
    have hbefore : s.logOf? header.ledger = some (x.entries, x.confirmed) := by simp [logOf?, hx]
    refine .added hheader hbefore hnew ?_
    rw [logOf?_insert, if_pos rfl, ledger_append_entries, x.append_confirmed]
  · refine .kept ?_
    rw [logOf?_insert, if_neg hl]

/-- A removal takes one ledger with all that was confirmed of it. -/
theorem remove_logChange (l : LedgerId) {present : Subscriber → Bool} {l' : LedgerId}
    {r : Bool × List Subscriber} (h : remove present l' s = .ok (r, s')) :
    LogChange l s (.remove present l') s' := by
  have hlog : ∀ k, s'.logOf? k = if l' = k then none else s.logOf? k := by
    intro k
    unfold logOf?
    rw [(remove_spec h).1.ledgers, Table.get?_erase]
    split <;> rfl
  by_cases hl : l' = l
  · subst hl
    exact .removed (by rw [hlog, if_pos rfl])
  · exact .kept (by rw [hlog, if_neg hl])

/-- What a store is asked decides what becomes of the confirmed entry. -/
theorem serve_logChange (l : LedgerId) (s : Store) (ask : Ask) :
    LogChange l s ask (s.serve ask) := by
  have hbehind : ∀ {α : Type} {action : StoreAction α},
      (∀ a s', action s = .ok (a, s') → LogChange l s ask s') →
      LogChange l s ask (s.behind action) := by
    intro α action hok
    unfold behind
    split
    next hact => exact hok _ _ hact
    next => exact .kept rfl
  cases ask with
  | request r => exact hbehind fun _ _ => request_logChange l r
  | append entry => exact hbehind fun _ _ => append_logChange l
  | remove present l' => exact hbehind fun _ _ => remove_logChange l
  | subscribe who => exact .kept rfl

/-! ### The law -/

/-- What entries tell to be confirmed. That no entry is goes without telling. -/
def toldBy (t : Table EntryId Bytes) : Set EntryId :=
  {c | c = .unset ∨ ∃ e entry, t.get? e = some entry ∧ Entry.confirmed? entry = some c}

/-- The greatest of what is told, when one more entry tells of something. -/
theorem isGreatest_insert {t : Table EntryId Bytes} {e : EntryId} {entry : Bytes}
    (hnew : t.get? e = none) (h : IsGreatest (toldBy t) c) :
    IsGreatest (toldBy (t.insert e entry)) (Entry.raise c entry) := by
  obtain ⟨htold, hbound⟩ := h
  constructor
  · rcases Entry.raise_cases c entry with hsame | hraised
    · rw [hsame]
      refine htold.imp_right ?_
      rintro ⟨e', entry', hget, hc⟩
      refine ⟨e', entry', ?_, hc⟩
      rw [Table.get?_insert, if_neg]
      · exact hget
      · rintro rfl
        cases hnew.symm.trans hget
    · exact Or.inr ⟨e, entry, by rw [Table.get?_insert, if_pos rfl], hraised⟩
  · rintro told (rfl | ⟨e', entry', hget, hc⟩)
    · exact EntryId.le_trans (hbound (Or.inl rfl)) (Entry.le_raise c entry)
    · rw [Table.get?_insert] at hget
      split at hget
      next =>
        cases hget
        exact Entry.told_le_raise c hc
      next =>
        exact EntryId.le_trans (hbound (Or.inr ⟨e', entry', hget, hc⟩)) (Entry.le_raise c entry)

/-- What is confirmed of each ledger is the latest that its entries tell of. -/
def Law (s : Store) : Prop := ∀ l t c, s.logOf? l = some (t, c) → IsGreatest (toldBy t) c

theorem law_empty : Law empty := by
  intro l t c hlog
  cases hlog

/-- What is confirmed is what the entries tell of, and stays so with each request. -/
theorem Law.serve (h : Law s) (ask : Ask) : Law (s.serve ask) := by
  intro l t c hlog
  cases serve_logChange l s ask with
  | kept same => exact h l t c (same.symm.trans hlog)
  | created absent new =>
      cases new.symm.trans hlog
      refine ⟨Or.inl rfl, ?_⟩
      rintro told (rfl | ⟨e, entry, hget, -⟩)
      · exact EntryId.le_refl _
      · cases hget
  | removed gone => cases gone.symm.trans hlog
  | added header before new after =>
      cases after.symm.trans hlog
      exact isGreatest_insert new (h _ _ _ before)

theorem Law.serveAll (h : Law s) (asks : List Ask) : Law (s.serveAll asks) := by
  induction asks generalizing s with
  | nil => exact h
  | cons ask asks ih => exact ih (h.serve ask)

/-! ### What follows from it -/

/-- What a store answers about the last confirmed entry of a ledger. -/
structure Confirms (s : Store) (l : LedgerId) (c : EntryId) : Prop where
  answered : confirmed l s = .ok (c, s)
  greatest : IsGreatest
    {told | told = .unset ∨ ∃ e entry, s.entryAt? l e = some entry ∧
      Entry.confirmed? entry = some told} c
  entry : entry l .unset s =
    match s.entryAt? l c with
    | none => .error (.noEntry l c)
    | some bytes => .ok (bytes, s)

theorem confirmedOf?_of_logOf? {t : Table EntryId Bytes} (h : s.logOf? l = some (t, c)) :
    s.confirmedOf? l = some c := by
  rw [confirmedOf?_eq_logOf?, h]
  rfl

theorem entryAt?_of_logOf? {t : Table EntryId Bytes} (h : s.logOf? l = some (t, c)) (e : EntryId) :
    s.entryAt? l e = t.get? e := by
  rw [entryAt?, entriesOf?_eq_logOf?, h]
  rfl

/-- Since the law holds of every ledger, each one that is there has something confirmed. -/
theorem Law.confirms (h : Law s) (hheld : s.ledgers.contains l = true) :
    ∃ c, Confirms s l c := by
  obtain ⟨x, hx⟩ := Option.isSome_iff_exists.mp hheld
  have hlog : s.logOf? l = some (x.entries, x.confirmed) := by simp [logOf?, hx]
  have hat := entryAt?_of_logOf? hlog
  refine ⟨x.confirmed, ?_, ?_, ?_⟩
  · unfold confirmed look
    rw [hx]
  · have hgreatest := h l _ _ hlog
    unfold toldBy at hgreatest
    simpa only [hat] using hgreatest
  · have hresolve : x.resolve .unset = x.confirmed := if_pos rfl
    rw [hat]
    cases hget : x.entries.get? x.confirmed <;> simp [Store.entry, hx, hresolve, hget]

/-- What a ledger's last confirmed entry does when the store is asked for something: it
stays, or it moves up with an entry of the ledger that the store accepts under a new id
and that tells of it. -/
structure Moves (s : Store) (l : LedgerId) (ask : Ask) (c c' : EntryId) : Prop where
  le : c ≤ c'
  accepted : c ≠ c' → ∃ e entry, ask = .append entry ∧ Entry.readHeader entry = .ok ⟨l, e⟩ ∧
    s.entryAt? l e = none ∧ (s.serve ask).entryAt? l e = some entry ∧
    Entry.confirmed? entry = some c'

/-- Asked for anything but its removal, a store keeps a ledger. -/
theorem serve_moves (hc : s.confirmedOf? l = some c) (hkept : ∀ present, ask ≠ .remove present l) :
    ∃ c', (s.serve ask).confirmedOf? l = some c' ∧ Moves s l ask c c' := by
  have hstays : Moves s l ask c c := ⟨EntryId.le_refl c, fun hne => absurd rfl hne⟩
  rw [confirmedOf?_eq_logOf?] at hc
  obtain ⟨⟨t, c₀⟩, hlog, rfl⟩ := Option.map_eq_some_iff.mp hc
  have hchange := serve_logChange l s ask
  generalize hafter : s.serve ask = s' at hchange
  cases hchange with
  | kept same => exact ⟨c₀, confirmedOf?_of_logOf? (same.trans hlog), hstays⟩
  | created absent new => cases absent.symm.trans hlog
  | removed gone => exact absurd rfl (hkept _)
  | added header before new after =>
      cases before.symm.trans hlog
      refine ⟨_, confirmedOf?_of_logOf? after, Entry.le_raise _ _, fun hne => ?_⟩
      refine ⟨_, _, rfl, header, (entryAt?_of_logOf? before _).trans new, ?_, ?_⟩
      · rw [hafter, entryAt?_of_logOf? after, Table.get?_insert, if_pos rfl]
      · exact (Entry.raise_cases _ _).resolve_left (Ne.symm hne)

/-- What is confirmed only goes up while the ledger is there. -/
theorem serveAll_le {asks : List Ask} (hc : s.confirmedOf? l = some c)
    (hkept : ∀ present, Ask.remove present l ∉ asks) :
    ∃ c', (s.serveAll asks).confirmedOf? l = some c' ∧ c ≤ c' := by
  induction asks generalizing s c with
  | nil => exact ⟨c, hc, EntryId.le_refl c⟩
  | cons ask asks ih =>
      have hfirst : ∀ present, ask ≠ .remove present l := fun present heq =>
        hkept present (heq ▸ List.mem_cons_self)
      obtain ⟨c₁, hc₁, hmoves⟩ := serve_moves hc hfirst
      obtain ⟨c', hc', hle⟩ := ih hc₁ fun present hmem =>
        hkept present (List.mem_cons_of_mem _ hmem)
      exact ⟨c', hc', EntryId.le_trans hmoves.le hle⟩

/-- The stored entries of a ledger settle what is confirmed of it. -/
theorem Law.confirmed_eq (h : Law s) (h' : Law s') (hc : s.confirmedOf? l = some c)
    (hc' : s'.confirmedOf? l = some c') (hentries : ∀ e, s.entryAt? l e = s'.entryAt? l e) :
    c = c' := by
  rw [confirmedOf?_eq_logOf?] at hc hc'
  obtain ⟨⟨t, c₀⟩, hlog, rfl⟩ := Option.map_eq_some_iff.mp hc
  obtain ⟨⟨t', c₁⟩, hlog', rfl⟩ := Option.map_eq_some_iff.mp hc'
  have htold : toldBy t = toldBy t' := by
    unfold toldBy
    simp only [← entryAt?_of_logOf? hlog, ← entryAt?_of_logOf? hlog', hentries]
  have hgreatest := h l t c₀ hlog
  have hgreatest' := h' l t' c₁ hlog'
  rw [htold] at hgreatest
  exact EntryId.le_antisymm (hgreatest'.2 hgreatest.1) (hgreatest.2 hgreatest'.1)

end Store

namespace Host

open Store

variable {faults faults' : Option FaultPlan} {ops ops' : List Op} {l : LedgerId} {c c' : EntryId}

theorem run_law (faults : Option FaultPlan) (ops : List Op) :
    Law ((start faults).run ops).store := by
  obtain ⟨asks, hasks⟩ := run_asks (start faults) ops
  rw [hasks]
  exact law_empty.serveAll asks

/-- Two runs that had the same entries of a ledger accepted, in whichever order, have the
same confirmed of it. -/
theorem run_confirmed_eq (hc : ((start faults).run ops).store.confirmedOf? l = some c)
    (hc' : ((start faults').run ops').store.confirmedOf? l = some c')
    (haccepted : ∀ e entry, AcceptedSince (start faults) ops l e entry ↔
      AcceptedSince (start faults') ops' l e entry) : c = c' := by
  refine (run_law faults ops).confirmed_eq (run_law faults' ops') hc hc' fun e => ?_
  rw [confirmedOf?_eq_logOf?] at hc hc'
  obtain ⟨⟨t, _⟩, hlog, _⟩ := Option.map_eq_some_iff.mp hc
  obtain ⟨⟨t', _⟩, hlog', _⟩ := Option.map_eq_some_iff.mp hc'
  have ht : ((start faults).run ops).store.entriesOf? l = some t := by
    rw [entriesOf?_eq_logOf?, hlog]
    rfl
  have ht' : ((start faults').run ops').store.entriesOf? l = some t' := by
    rw [entriesOf?_eq_logOf?, hlog']
    rfl
  rw [entryAt?_of_logOf? hlog, entryAt?_of_logOf? hlog']
  refine Option.ext fun entry => ?_
  rw [run_entries (fun _ => rfl) ops ht, run_entries (fun _ => rfl) ops' ht', haccepted]

/-- Whatever a store is asked, the last confirmed entry of a ledger is the latest that its
entries tell of, and the store answers so. While the ledger is there, that goes up or
stays, and only an entry that the store accepts moves it; the order of arrival does not
matter. The stores of hosts are among these. -/
theorem confirmed_is_latest_told :
    (∀ asks l, (empty.serveAll asks).ledgers.contains l = true →
      ∃ c, Confirms (empty.serveAll asks) l c) ∧
    (∀ asks ask l c, (empty.serveAll asks).confirmedOf? l = some c →
      (∀ present, ask ≠ .remove present l) →
      ∃ c', ((empty.serveAll asks).serve ask).confirmedOf? l = some c' ∧
        Moves (empty.serveAll asks) l ask c c') ∧
    (∀ asks later l c, (empty.serveAll asks).confirmedOf? l = some c →
      (∀ present, Ask.remove present l ∉ later) →
      ∃ c', ((empty.serveAll asks).serveAll later).confirmedOf? l = some c' ∧ c ≤ c') ∧
    (∀ faults faults' ops ops' l c c', ((start faults).run ops).store.confirmedOf? l = some c →
      ((start faults').run ops').store.confirmedOf? l = some c' →
      (∀ e entry, AcceptedSince (start faults) ops l e entry ↔
        AcceptedSince (start faults') ops' l e entry) → c = c') ∧
    ∀ faults ops, ∃ asks, ((start faults).run ops).store = empty.serveAll asks := by
  refine ⟨?_, ?_, ?_, ?_, fun faults ops => run_asks (start faults) ops⟩
  · intro asks l hheld
    exact (law_empty.serveAll asks).confirms hheld
  · intro asks ask l c hc hkept
    exact serve_moves hc hkept
  · intro asks later l c hc hkept
    exact serveAll_le hc hkept
  · intro faults faults' ops ops' l c c'
    exact run_confirmed_eq

/-- Entries that tell of less than was told before, of nothing at all, and of more under
an id that is taken. -/
def arrivals : List Op :=
  [.request .direct (.bindKey ⟨1⟩ []), .append .direct (Entry.encode ⟨1⟩ ⟨0⟩ ⟨7⟩ []),
    .append .direct (Entry.encode ⟨1⟩ ⟨1⟩ ⟨-5⟩ []),
    .append .direct ((Entry.encode ⟨1⟩ ⟨2⟩ ⟨90⟩ []).take 16),
    .append .direct (Entry.encode ⟨1⟩ ⟨0⟩ ⟨100⟩ [])]

/-- Just the first of them moves what is confirmed, to an entry that is not there. -/
theorem confirmed_after_arrivals :
    Confirms ((start none).run arrivals).store ⟨1⟩ ⟨7⟩ ∧
      Store.entry ⟨1⟩ .unset ((start none).run arrivals).store = .error (.noEntry ⟨1⟩ ⟨7⟩) := by
  obtain ⟨hanswers, -, -, -, hruns⟩ := confirmed_is_latest_told
  obtain ⟨asks, hasks⟩ := hruns none arrivals
  obtain ⟨c, hconfirms⟩ := hanswers asks ⟨1⟩ (hasks ▸ rfl)
  rw [← hasks] at hconfirms
  have hanswered : Store.confirmed ⟨1⟩ ((start none).run arrivals).store =
      .ok (⟨7⟩, ((start none).run arrivals).store) := rfl
  cases hanswered.symm.trans hconfirms.answered
  exact ⟨hconfirms, hconfirms.entry⟩

end Host

end FencedLedger
