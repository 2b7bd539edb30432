import FencedLedger.Proofs.FollowedAdvances
import FencedLedger.Proofs.StoreCalls
import FencedLedger.Proofs.ToldWatchers
import FencedLedger.Proofs.WatchContract
import FencedLedger.Proofs.WriteOnceLog

/-!
# Watchers who wait again

A watcher who waits again whenever it is told hears of every advance beyond what it knew at
first, if calls come one after another and the other watchers only make a note, wait again or
read when they are told: who is to be told is settled before anybody is, and a wait for what
was just confirmed is granted. Among callers who take turns, and among watchers who store
entries when they are told, more may be confirmed before the watcher waits again. It hears of
every advance exactly if that does not happen; where it does, the watcher misses the entry and
waits no more.
-/

namespace FencedLedger

open Following WatchEvent

/-- What an event says that a watcher heard of a ledger, and did. -/
def Event.heard? (l : LedgerId) (who : Watcher) : Event → Option (EntryId × Reacted)
  | .advanced notice reacted =>
      if notice.ledger = l ∧ notice.watcher = who then some (notice.confirmed, reacted) else none
  | _ => none

namespace Event

variable {l : LedgerId}

theorem heard?_event (l l' : LedgerId) (who who' : Watcher) (c : EntryId) :
    heard? l who (Notice.event ⟨who', l', c⟩) =
      if l' = l ∧ who' = who then some (c, Notice.reacted ⟨who', l', c⟩) else none := rfl

/-- Of those who are told, each is told once. -/
theorem heard?_told {told : List Watcher} (honce : told.Nodup) (l : LedgerId) (who : Watcher)
    (c : EntryId) :
    (told.map fun who => Notice.event ⟨who, l, c⟩).filterMap (heard? l who) =
      if who ∈ told then [(c, Notice.reacted ⟨who, l, c⟩)] else [] := by
  induction told with
  | nil => rfl
  | cons first told ih =>
      obtain ⟨hnew, honce⟩ := List.nodup_cons.mp honce
      rw [List.map_cons, List.filterMap_cons, heard?_event, ih honce]
      by_cases hfirst : first = who
      · subst hfirst
        simp [hnew]
      · have hne : who ≠ first := fun heq => hfirst heq.symm
        simp [hfirst, hne]

theorem heard?_told_elsewhere {l' : LedgerId} (hne : l' ≠ l) (told : List Watcher)
    (who : Watcher) (c : EntryId) :
    (told.map fun who => Notice.event ⟨who, l', c⟩).filterMap (heard? l who) = [] := by
  rw [List.filterMap_eq_nil_iff]
  intro e he
  obtain ⟨who', -, rfl⟩ := List.mem_map.mp he
  rw [heard?_event, if_neg fun h => hne h.1]

end Event

namespace Ledger

variable {x : Ledger} {who : Watcher} {known : EntryId}

/-- Whoever waits for more than is confirmed is woken by an entry that tells of more. -/
theorem mem_woken_iff (hknown : x.watches.known.get? who = some known)
    (hle : ¬ known < x.confirmed) (entry : Bytes) :
    who ∈ x.woken entry ↔ known < Entry.raise x.confirmed entry := by
  have hbehind : known < Entry.raise x.confirmed entry →
      x.confirmed < Entry.raise x.confirmed entry :=
    EntryId.lt_of_le_of_lt (EntryId.le_of_not_lt hle)
  unfold woken releases
  simp only [List.mem_map, List.mem_filter, Bool.and_eq_true, decide_eq_true_eq]
  constructor
  · rintro ⟨⟨_, known'⟩, ⟨hmem, -, hlt⟩, rfl⟩
    obtain rfl : known' = known :=
      Option.some.inj ((Table.get?_eq_some_iff.mpr hmem).symm.trans hknown)
    exact hlt
  · intro hlt
    exact ⟨(who, known), ⟨Table.get?_eq_some_iff.mp hknown, hbehind hlt, hlt⟩, rfl⟩

/-- Whoever waits again when told is listed again, with what it was told. -/
theorem accept_get? (hrearm : who.reaction = .rearm)
    (hknown : x.watches.known.get? who = some known) (hle : ¬ known < x.confirmed)
    (e : EntryId) (entry : Bytes) :
    (x.accept e entry).watches.known.get? who =
      some (known.max (Entry.raise x.confirmed entry)) := by
  have hwoken := mem_woken_iff hknown hle entry
  unfold accept EntryId.max
  rw [WatchList.hearAll_get?, x.append_confirmed]
  by_cases hlt : known < Entry.raise x.confirmed entry
  · rw [if_pos ⟨hwoken.mpr hlt, hrearm⟩, if_pos hlt]
  · have hstays : x.releases entry known = false := by simp [releases, hlt]
    rw [if_neg fun h => hlt (hwoken.mp h.1), if_neg hlt, (x.append_woken e entry).2,
      Table.get?_filter_value, hknown]
    simp [hstays]

end Ledger

namespace Store

variable {s s' s'' : Store} {l : LedgerId} {who : Watcher}

/-- What is confirmed of one ledger stays, and so does the wait of one watcher. -/
structure Spares (l : LedgerId) (who : Watcher) (s s' : Store) : Prop where
  confirmed : ∀ {c}, s.confirmedOf? l = some c → s'.confirmedOf? l = some c
  waiting : s'.waiting? l who = s.waiting? l who

theorem spares_of_eq (h : s' = s) : Spares l who s s' := h ▸ ⟨id, rfl⟩

theorem Spares.trans (h : Spares l who s s') (h' : Spares l who s' s'') : Spares l who s s'' :=
  ⟨fun hc => h'.confirmed (h.confirmed hc), h'.waiting.trans h.waiting⟩

theorem Undisturbed.spares (h : Undisturbed s s') : Spares l who s s' :=
  ⟨h.confirmed, h.waiting l who⟩

theorem spares_insert_elsewhere {l' : LedgerId} (hne : l' ≠ l) (x : Ledger) :
    Spares l who s { s with ledgers := s.ledgers.insert l' x } where
  confirmed hc := by rwa [confirmedOf?_insert, if_neg hne]
  waiting := by rw [waiting?_insert, if_neg hne]

theorem Removes.spares {l' : LedgerId} (h : Removes l' s s') (hne : l' ≠ l) :
    Spares l who s s' where
  confirmed hc := by rwa [h.confirmedOf?, if_neg hne]
  waiting := by rw [h.waiting?, if_neg hne]

/-- A wait that is granted moves the watcher alone. -/
theorem watch_spares {l' : LedgerId} {known : EntryId} {who' : Watcher} {waits : Bool}
    (h : watch l' known who' s = .ok (waits, s'))
    (hother : waits = true → ¬ (l' = l ∧ who' = who)) : Spares l who s s' := by
  obtain ⟨-, -, ⟨-, -, hsame⟩ | ⟨hgranted, -, hconfirmed, hwaiting⟩⟩ := watch_spec h
  · exact spares_of_eq hsame
  · exact ⟨(hconfirmed l).trans, (hwaiting l who).trans (if_neg (hother hgranted))⟩

theorem unwatch_spares {l' : LedgerId} {who' : Watcher} (h : unwatch l' who' s = .ok ((), s'))
    (hother : ¬ (l' = l ∧ who' = who)) : Spares l who s s' := by
  obtain ⟨hconfirmed, hwaiting⟩ := unwatch_spec h
  exact ⟨(hconfirmed l).trans, (hwaiting l who).trans (if_neg hother)⟩

/-- A request spares a watcher, unless it is about that watcher and this ledger. -/
theorem request_spares {r : Request} {a : Answer} (h : r.action s = .ok (a, s'))
    (hwatch : ∀ known, r = .watch l known who → a ≠ .flag true) (hunwatch : r ≠ .unwatch l who) :
    Spares l who s s' := by
  cases hr : r.concernsWatchers with
  | false => exact (Request.undisturbed hr h).spares
  | true =>
      cases r with
      | watch l' known who' =>
          obtain ⟨waits, hact, rfl⟩ := answering_ok (by simpa only [Request.action] using h)
          refine watch_spares hact ?_
          rintro rfl ⟨rfl, rfl⟩
          exact hwatch known rfl rfl
      | unwatch l' who' =>
          obtain ⟨_, hact, -⟩ := answering_ok (by simpa only [Request.action] using h)
          refine unwatch_spares hact ?_
          rintro ⟨rfl, rfl⟩
          exact hunwatch rfl
      | _ => cases hr

end Store

namespace Host

variable {w w' : Host} {op : Op} {l : LedgerId} {who : Watcher} {prev known c : EntryId}

/-- What a watcher heard of a ledger, and what it did each time, oldest first. -/
def heard (w : Host) (l : LedgerId) (who : Watcher) : List (EntryId × Reacted) :=
  w.events.filterMap (Event.heard? l who)

/-- An operation lets a watcher wait on a ledger, or wait no more. -/
def Meddles (w : Host) (op : Op) (l : LedgerId) (who : Watcher) : Prop :=
  (∃ known, w.sent? op = some (.watch l known who)) ∧ (w.perform op).1 = .ok (.flag true) ∨
    w.sent? op = some (.unwatch l who)

/-- What a watcher hears during a run who waits for more than `prev` and waits again whenever it
is told. -/
structure HearsEvery (w : Host) (l : LedgerId) (who : Watcher) (prev : EntryId)
    (later : List Op) : Prop where
  /-- It is told of what is confirmed, later and later, and each wait is granted. -/
  heard : ∃ told : List EntryId,
    (w.run later).heard l who = w.heard l who ++ told.map (fun c => (c, .rearmed (.ok true))) ∧
      told.Pairwise (· < ·) ∧
      ∀ c, c ∈ told ↔
        prev < c ∧ ∃ mid, mid <+: later ∧ (w.run mid).store.confirmedOf? l = some c
  /-- An operation tells it at most once. -/
  once : ∀ mid op rest, later = mid ++ op :: rest →
    ((w.run (mid ++ [op])).heard l who).length ≤ ((w.run mid).heard l who).length + 1
  /-- An operation tells no more watchers than were listed when it began. -/
  ends : ∀ mid op rest, later = mid ++ op :: rest → ∃ told : List Notice,
    (w.run (mid ++ [op])).notified = (w.run mid).notified ++ told ∧ told.Nodup ∧
      ∀ notice ∈ told,
        ((w.run mid).store.waiting? notice.ledger notice.watcher).isSome = true

theorem heard_of_events (h : w'.events = w.events) (l : LedgerId) (who : Watcher) :
    w'.heard l who = w.heard l who := congrArg (List.filterMap _) h

/-- Watchers are told only of entries that are submitted. -/
theorem raised_of_not_submitted (w : Host) (h : op.submitted? = none) :
    ∃ raised, (w.perform op).2.events = w.events ++ raised ∧
      ∀ e ∈ raised, e.notice? = none := by
  obtain ⟨raised, hraised, hkinds⟩ := (perform_acts w op).emits
  refine ⟨raised, hraised, fun e he => ?_⟩
  have hkind := hkinds e he
  cases e with
  | advanced notice reacted =>
      cases op with
      | append access entry => cases h
      | use handle call =>
          cases call with
          | append entry => cases h
          | _ => cases hkind
      | _ => cases hkind
  | _ => rfl

theorem notified_of_not_submitted (w : Host) (h : op.submitted? = none) :
    (w.perform op).2.notified = w.notified := by
  obtain ⟨raised, hraised, hsilent⟩ := raised_of_not_submitted w h
  unfold notified
  rw [hraised, List.filterMap_append, List.filterMap_eq_nil_iff.mpr hsilent, List.append_nil]

/-- Without an entry, no watcher is told. -/
theorem heard_of_not_submitted (w : Host) (h : op.submitted? = none) (l : LedgerId)
    (who : Watcher) : (w.perform op).2.heard l who = w.heard l who := by
  obtain ⟨raised, hraised, hsilent⟩ := raised_of_not_submitted w h
  have hnone : raised.filterMap (Event.heard? l who) = [] := by
    rw [List.filterMap_eq_nil_iff]
    intro e he
    have hnotice := hsilent e he
    cases e with
    | advanced notice reacted => cases hnotice
    | _ => rfl
  unfold heard
  rw [hraised, List.filterMap_append, hnone, List.append_nil]

/-- An operation sends a request or submits an entry, and not both. -/
theorem submitted?_of_sent {r : Request} (h : w.sent? op = some r) : op.submitted? = none := by
  cases op with
  | append access entry => cases h
  | use handle call =>
      cases call with
      | append entry =>
          have hnone : w.forwarded? handle (.append entry) = none := by cases handle <;> rfl
          change (if _ then _ else none) = _ at h
          rw [hnone, ite_self] at h
          cases h
      | _ => rfl
  | _ => rfl

/-! ### One operation -/

/-- What an operation comes to for a watcher who waits for more than `known` and waits again
when it is told, on a ledger of which `c` was confirmed before and `c'` is afterwards. -/
structure Hears (l : LedgerId) (who : Watcher) (known c c' : EntryId) (w w' : Host) : Prop where
  onward : ¬ c' < c
  confirmed : w'.store.confirmedOf? l = some c'
  waiting : w'.store.waiting? l who = some (known.max c')
  heard : w'.heard l who =
    w.heard l who ++ if known < c' then [(c', .rearmed (.ok true))] else []

section Hears

variable (hle : ¬ known < c) (hwaiting : w.store.waiting? l who = some known)
  (hconfirmed : w.store.confirmedOf? l = some c)

include hle hwaiting hconfirmed

/-- Where the watcher is spared, it hears nothing. -/
theorem hears_nothing (hspares : w.store.Spares l who w'.store)
    (hheard : w'.heard l who = w.heard l who) : Hears l who known c c w w' where
  onward := EntryId.not_lt_self c
  confirmed := hspares.confirmed hconfirmed
  waiting := by rw [hspares.waiting, hwaiting, EntryId.max_of_not_lt hle]
  heard := by rw [hheard, if_neg hle, List.append_nil]

theorem Intact.hears (h : Intact w w') : Hears l who known c c w w' := by
  have hstore : w'.store = w.store := by rw [h.same]
  have hevents : w'.events = w.events := by rw [h.same]
  exact hears_nothing hle hwaiting hconfirmed (Store.spares_of_eq hstore)
    (heard_of_events hevents l who)

theorem accepting_elsewhere_hears {l' : LedgerId} (hne : l' ≠ l) (e : EntryId) (x : Ledger)
    (entry : Bytes) : Hears l who known c c w (w.accepting l' e x entry) := by
  refine hears_nothing hle hwaiting hconfirmed (Store.spares_insert_elsewhere hne _) ?_
  unfold heard accepting
  rw [List.filterMap_append, Event.heard?_told_elsewhere hne, List.append_nil]

end Hears

/-- An entry is stored in a ledger, and everybody was told. -/
theorem accepting_hears (x : Ledger) (e : EntryId) (entry : Bytes) (hrearm : who.reaction = .rearm)
    (hknown : x.watches.known.get? who = some known) (hle : ¬ known < x.confirmed) :
    Hears l who known x.confirmed (Entry.raise x.confirmed entry) w (w.accepting l e x entry) := by
  have honce : (x.woken entry).Nodup := Table.nodup_filter x.watches.known.distinct
  have hreacted : Notice.reacted ⟨who, l, Entry.raise x.confirmed entry⟩ = .rearmed (.ok true) := by
    unfold Notice.reacted
    rw [hrearm]
  constructor
  case onward => exact Int64.not_lt.mpr (Entry.le_raise x.confirmed entry)
  case confirmed =>
    rw [accepting, Store.confirmedOf?_insert, if_pos rfl, x.accept_confirmed]
  case waiting =>
    rw [accepting, Store.waiting?_insert, if_pos rfl, Ledger.accept_get? hrearm hknown hle]
  case heard =>
    unfold heard accepting
    rw [x.accept_confirmed, List.filterMap_append, Event.heard?_told honce, hreacted]
    simp only [Ledger.mem_woken_iff hknown hle]

/-- An entry that is submitted without planned faults tells the watcher of what it confirms. -/
theorem append_hears (hunplanned : w.faults = none) (access : Access) (entry : Bytes)
    (hrearm : who.reaction = .rearm) (hle : ¬ known < c)
    (hwaiting : w.store.waiting? l who = some known)
    (hconfirmed : w.store.confirmedOf? l = some c) :
    ∃ c', Hears l who known c c' w (w.append access entry).2 := by
  rcases append_unplanned_cases hunplanned access entry with
    ⟨cause, hrefused⟩ | ⟨l', e, x, -, -, hx, -, haccepted⟩
  · rw [hrefused]
    exact ⟨c, (Intact.refl w).hears hle hwaiting hconfirmed⟩
  · rw [haccepted]
    by_cases hl : l' = l
    · subst hl
      obtain rfl : x.confirmed = c := by simpa [Store.confirmedOf?, hx] using hconfirmed
      have hknown : x.watches.known.get? who = some known := by
        simpa [Store.waiting?, hx] using hwaiting
      exact ⟨_, accepting_hears x e entry hrearm hknown hle⟩
    · exact ⟨c, accepting_elsewhere_hears hle hwaiting hconfirmed hl e x entry⟩

/-- A request that does not meddle spares the watcher. -/
theorem request_spares {r : Request} {access : Access} (hsent : w.sent? op = some r)
    (hanswer : ∀ a, (w.perform op).1 = .ok a ↔ (w.request access r).1 = .ok a)
    (halone : ¬ w.Meddles op l who) : w.store.Spares l who (w.request access r).2.store := by
  cases hrequest : w.request access r with
  | mk answer w' =>
      rw [hrequest] at hanswer
      cases answer with
      | error e => exact Store.spares_of_eq (send_error hrequest).store
      | ok a =>
          refine Store.request_spares (send_ok hrequest).1 ?_ ?_
          · rintro known rfl rfl
            exact halone (Or.inl ⟨⟨known, hsent⟩, (hanswer _).mpr rfl⟩)
          · rintro rfl
            exact halone (Or.inr hsent)

/-- The removal of another ledger spares the watcher, whoever is told of it. -/
theorem remove_spares {access : Access} {l' : LedgerId}
    (hkept : w.removed? (.remove access l') ≠ some l) :
    w.store.Spares l who (w.remove access l').2.store := by
  rcases remove_cases w access l' with ⟨-, hidle⟩ | ⟨w₁, wasFenced, hok, -, hremoves, -, htold⟩
  · exact Store.spares_of_eq hidle.store
  · have hne : l' ≠ l := by
      rintro rfl
      refine hkept ?_
      unfold removed?
      dsimp only
      rw [hok]
    have htells := tellSubscribers_tells w₁ l' wasFenced w₁.store.subscribers
    rw [htold]
    exact (hremoves.spares hne).trans htells.grows.undisturbed.spares

/-- An operation that submits no entry spares the watcher, unless it meddles. -/
theorem perform_spares (hnone : op.submitted? = none) (hkept : w.removed? op ≠ some l)
    (halone : ¬ w.Meddles op l who) : w.store.Spares l who (w.perform op).2.store := by
  cases hcalls : op.callsStore with
  | true =>
      cases perform_consults w hcalls with
      | stays hsent intact =>
          refine Store.spares_of_eq ?_
          rw [intact.same]
      | submits access entry hsubmitted hsent host => cases hnone.symm.trans hsubmitted
      | sends access r hsent host answer =>
          rw [host]
          exact request_spares hsent answer halone
  | false =>
      by_cases hremove : ∃ access l', op = .remove access l'
      · obtain ⟨access, l', rfl⟩ := hremove
        unfold perform
        rw [answer_host]
        exact remove_spares hkept
      · have hundisturbed := (perform_effect w op).undisturbed hcalls
          fun access l' heq => hremove ⟨access, l', heq⟩
        exact hundisturbed.spares

theorem callsStore_of_submitted {entry : Bytes} (h : op.submitted? = some entry) :
    op.callsStore = true := by
  cases op with
  | append | use => rfl
  | _ => cases h

/-- One operation tells the watcher of what is confirmed afterwards, if that is more than it
knows of, and of nothing else. -/
theorem perform_hears (hunplanned : w.faults = none) (hrearm : who.reaction = .rearm)
    (hkept : w.removed? op ≠ some l) (halone : ¬ w.Meddles op l who) (hle : ¬ known < c)
    (hwaiting : w.store.waiting? l who = some known)
    (hconfirmed : w.store.confirmedOf? l = some c) :
    ∃ c', Hears l who known c c' w (w.perform op).2 := by
  cases hsubmitted : op.submitted? with
  | none =>
      have hspares := perform_spares hsubmitted hkept halone
      have hheard := heard_of_not_submitted w hsubmitted l who
      exact ⟨c, hears_nothing hle hwaiting hconfirmed hspares hheard⟩
  | some entry =>
      cases perform_consults w (callsStore_of_submitted hsubmitted) with
      | stays hsent intact => exact ⟨c, intact.hears hle hwaiting hconfirmed⟩
      | submits access entry' hsubmitted' hsent host =>
          rw [host]
          exact append_hears hunplanned access entry' hrearm hle hwaiting hconfirmed
      | sends access r hsent host answer => cases (submitted?_of_sent hsent).symm.trans hsubmitted

/-- Those who are told are told once, and waited when the operation began. -/
theorem accepting_tells {x : Ledger} (hx : w.store.ledgers.get? l = some x) (e : EntryId)
    (entry : Bytes) :
    ∃ told : List Notice, (w.accepting l e x entry).notified = w.notified ++ told ∧ told.Nodup ∧
      ∀ notice ∈ told, (w.store.waiting? notice.ledger notice.watcher).isSome = true := by
  have honce : (x.woken entry).Nodup := Table.nodup_filter x.watches.known.distinct
  refine ⟨(x.woken entry).map fun who => ⟨who, l, (x.accept e entry).confirmed⟩, ?_, ?_, ?_⟩
  · unfold notified accepting
    rw [List.filterMap_append, List.filterMap_map, ← List.filterMap_eq_map]
    rfl
  · refine List.Pairwise.map _ ?_ honce
    intro who who' hne heq
    exact hne (congrArg Notice.watcher heq)
  · intro notice hnotice
    obtain ⟨who, hwho, rfl⟩ := List.mem_map.mp hnotice
    obtain ⟨⟨_, known⟩, hmem, rfl⟩ := List.mem_map.mp hwho
    have hknown := Table.get?_eq_some_iff.mpr (List.mem_filter.mp hmem).1
    simp [Store.waiting?, hx, hknown]

/-- Whoever is told during an operation was waiting when it began, and is told once. -/
theorem perform_tells (hunplanned : w.faults = none) (op : Op) :
    ∃ told : List Notice, (w.perform op).2.notified = w.notified ++ told ∧ told.Nodup ∧
      ∀ notice ∈ told, (w.store.waiting? notice.ledger notice.watcher).isSome = true := by
  have hnobody : ∀ {w' : Host}, w'.notified = w.notified →
      ∃ told : List Notice, w'.notified = w.notified ++ told ∧ told.Nodup ∧
        ∀ notice ∈ told, (w.store.waiting? notice.ledger notice.watcher).isSome = true :=
    fun hsame => ⟨[], by rw [hsame, List.append_nil], List.nodup_nil, by simp⟩
  cases hsubmitted : op.submitted? with
  | none => exact hnobody (notified_of_not_submitted w hsubmitted)
  | some entry =>
      cases perform_consults w (callsStore_of_submitted hsubmitted) with
      | stays hsent intact =>
          refine hnobody ?_
          rw [intact.same]
          rfl
      | submits access entry' hsubmitted' hsent host =>
          rw [host]
          rcases append_unplanned_cases hunplanned access entry' with
            ⟨cause, hrefused⟩ | ⟨l, e, x, -, -, hx, -, haccepted⟩
          · rw [hrefused]
            exact hnobody rfl
          · rw [haccepted]
            exact accepting_tells hx e entry'
      | sends access r hsent host answer => cases (submitted?_of_sent hsent).symm.trans hsubmitted

/-! ### Runs -/

/-- The watcher waits for more than `prev` and than what is confirmed, and has been told of what
was confirmed in between. -/
structure Armed (w : Host) (l : LedgerId) (who : Watcher) (prev : EntryId) (later : List Op)
    (told : List EntryId) (c : EntryId) : Prop where
  confirmed : (w.run later).store.confirmedOf? l = some c
  waiting : (w.run later).store.waiting? l who = some (prev.max c)
  heard : (w.run later).heard l who =
    w.heard l who ++ told.map fun c => (c, .rearmed (.ok true))
  ascending : told.Pairwise (· < ·)
  behind : ∀ v ∈ told, ¬ c < v
  exact : ∀ v, v ∈ told ↔
    prev < v ∧ ∃ mid, mid <+: later ∧ (w.run mid).store.confirmedOf? l = some v

/-- A watcher whose wait was just granted has been told of nothing yet. -/
theorem armed_start (hle : ¬ prev < c) (hconfirmed : w.store.confirmedOf? l = some c)
    (hwaiting : w.store.waiting? l who = some prev) : Armed w l who prev [] [] c where
  confirmed := hconfirmed
  waiting := by
    rw [EntryId.max_of_not_lt hle]
    exact hwaiting
  heard := (List.append_nil _).symm
  ascending := .nil
  behind := by simp
  exact v := by
    simp only [List.not_mem_nil, List.prefix_nil, exists_eq_left, false_iff, not_and]
    intro hlt hv
    obtain rfl : c = v := Option.some.inj (hconfirmed.symm.trans hv)
    exact hle hlt

theorem prefix_concat {P : List Op → Prop} {ops : List Op} :
    (∃ mid, mid <+: ops ++ [op] ∧ P mid) ↔ P (ops ++ [op]) ∨ ∃ mid, mid <+: ops ∧ P mid := by
  simp only [List.prefix_concat_iff, or_and_right, exists_or, exists_eq_left]

/-- What the next operation confirms is told if it is more than the watcher knew of. -/
theorem Armed.step {later : List Op} {told : List EntryId} {c' : EntryId}
    (h : Armed w l who prev later told c)
    (hears : Hears l who (prev.max c) c c' (w.run later)
      ((w.run later).perform op).2) :
    Armed w l who prev (later ++ [op])
      (told ++ if prev.max c < c' then [c'] else []) c' where
  confirmed := by rw [run_concat, hears.confirmed]
  waiting := by rw [run_concat, hears.waiting, EntryId.max_max_of_not_lt hears.onward]
  heard := by
    rw [run_concat, hears.heard, h.heard, List.append_assoc, List.map_append]
    split <;> rfl
  ascending := by
    refine List.pairwise_append.mpr ⟨h.ascending, ?_, fun v hv v' hv' => ?_⟩
    · split
      next => exact List.pairwise_singleton _ _
      next => exact .nil
    · -- it is beyond what was confirmed, and so beyond all that was told
      split at hv'
      next hlt =>
        obtain rfl := List.mem_singleton.mp hv'
        have hle := EntryId.le_of_not_lt (h.behind v hv)
        exact EntryId.lt_of_le_of_lt hle (EntryId.max_lt_iff.mp hlt).2
      next => cases hv'
  behind v hv := by
    rcases List.mem_append.mp hv with hbefore | hnew
    · have hle := EntryId.le_of_not_lt (h.behind v hbefore)
      exact fun hlt => hears.onward (EntryId.lt_of_lt_of_le hlt hle)
    · split at hnew
      next =>
        obtain rfl := List.mem_singleton.mp hnew
        exact EntryId.not_lt_self v
      next => cases hnew
  exact v := by
    rw [List.mem_append, h.exact, prefix_concat, run_concat, hears.confirmed]
    constructor
    · rintro (⟨hlt, hbefore⟩ | hnew)
      · exact ⟨hlt, Or.inr hbefore⟩
      · split at hnew
        next hknown =>
          obtain rfl := List.mem_singleton.mp hnew
          exact ⟨(EntryId.max_lt_iff.mp hknown).1, Or.inl rfl⟩
        next => cases hnew
    · rintro ⟨hlt, hlast | hbefore⟩
      · obtain rfl := Option.some.inj hlast
        by_cases hraised : c < c'
        · refine Or.inr ?_
          rw [if_pos (EntryId.max_lt_iff.mpr ⟨hlt, hraised⟩)]
          exact List.mem_singleton_self c'
        · -- nothing was confirmed by the last operation
          obtain rfl : c' = c :=
            EntryId.le_antisymm (EntryId.le_of_not_lt hraised) (EntryId.le_of_not_lt hears.onward)
          exact Or.inl ⟨hlt, later, List.prefix_refl later, h.confirmed⟩
      · exact Or.inl ⟨hlt, hbefore⟩

theorem run_onward (w : Host) (ops : List Op) : Onward w (w.run ops) := by
  rw [← live_act]
  exact live_onward w _

/-- While the ledger is there and nobody else meddles, the watcher stays armed. -/
theorem run_armed (hunplanned : w.faults = none) (hrearm : who.reaction = .rearm)
    (hle : ¬ prev < c) (hconfirmed : w.store.confirmedOf? l = some c)
    (hwaiting : w.store.waiting? l who = some prev) {later : List Op}
    (hkept : ∀ mid op rest, later = mid ++ op :: rest → (w.run mid).removed? op ≠ some l)
    (halone : ∀ mid op rest, later = mid ++ op :: rest → ¬ (w.run mid).Meddles op l who) :
    ∃ told c', Armed w l who prev later told c' := by
  induction later using List.reverseRecOn with
  | nil => exact ⟨[], c, armed_start hle hconfirmed hwaiting⟩
  | append_singleton later op ih =>
      obtain ⟨told, c₁, harmed⟩ := ih
        (fun mid op' rest hsplit => hkept mid op' (rest ++ [op]) (by simp [hsplit]))
        (fun mid op' rest hsplit => halone mid op' (rest ++ [op]) (by simp [hsplit]))
      obtain ⟨c₂, hears⟩ := perform_hears ((run_onward w later).unplanned hunplanned) hrearm
        (hkept later op [] rfl) (halone later op [] rfl) (EntryId.not_max_lt prev c₁) harmed.waiting
        harmed.confirmed
      exact ⟨_, c₂, harmed.step hears⟩

theorem Hears.length_le {c' : EntryId} (h : Hears l who known c c' w w') :
    (w'.heard l who).length ≤ (w.heard l who).length + 1 := by
  rw [h.heard, List.length_append]
  split <;> simp

/-- A wait that was granted stands, for more than is confirmed. -/
theorem waits_of_granted (hsent : w.sent? op = some (.watch l prev who))
    (hgranted : (w.perform op).1 = .ok (.flag true)) :
    ∃ c, ¬ prev < c ∧ (w.perform op).2.store.confirmedOf? l = some c ∧
      (w.perform op).2.store.waiting? l who = some prev := by
  have hcalls : op.callsStore = true := by
    cases op with
    | request | use => rfl
    | _ => cases hsent
  cases perform_consults w hcalls with
  | stays hnone => cases hnone.symm.trans hsent
  | submits _ _ _ hnone => cases hnone.symm.trans hsent
  | sends access r hsent' host answer =>
      obtain rfl := Option.some.inj (hsent'.symm.trans hsent)
      rw [host]
      cases hrequest : w.request access (.watch l prev who) with
      | mk granted w' =>
          have hok := (answer _).mp hgranted
          rw [hrequest] at hok
          obtain rfl : granted = .ok (.flag true) := hok
          obtain ⟨waits, hact, hwaits⟩ := Store.answering_ok (send_ok hrequest).1
          obtain rfl : waits = true := Answer.flag.inj hwaits.symm
          obtain ⟨c, hc, ⟨hfalse, -⟩ | ⟨-, hle, hsame, hwaiting⟩⟩ := Store.watch_spec hact
          · cases hfalse
          · exact ⟨c, hle, (hsame l).trans hc, (hwaiting l who).trans (if_pos ⟨rfl, rfl⟩)⟩

/-- On every run without planned faults, a watcher who was let wait for more than `prev`, who
waits again whenever it is told and with whose wait nobody else meddles while the ledger is
there, is told of just what is confirmed beyond `prev`, in order. -/
theorem rearming_watcher_hears_every_advance {pre : List Op} (hw : w = (start none).run pre)
    (hrearm : who.reaction = .rearm) (hsent : w.sent? op = some (.watch l prev who))
    (hgranted : (w.perform op).1 = .ok (.flag true)) (hafter : w' = (w.perform op).2)
    {later : List Op}
    (hkept : ∀ mid op' rest, later = mid ++ op' :: rest → (w'.run mid).removed? op' ≠ some l)
    (halone : ∀ mid op' rest, later = mid ++ op' :: rest → ¬ (w'.run mid).Meddles op' l who) :
    HearsEvery w' l who prev later := by
  obtain ⟨c, hle, hconfirmed, hwaiting⟩ := waits_of_granted hsent hgranted
  have hbefore : w.faults = none := by rw [hw, run_unplanned]
  have hunplanned : w'.faults = none := by
    rw [hafter]
    exact (perform_effect w op).onward.unplanned hbefore
  rw [← hafter] at hconfirmed hwaiting
  have hrun : ∀ mid, (w'.run mid).faults = none := fun mid =>
    (run_onward w' mid).unplanned hunplanned
  constructor
  case heard =>
    obtain ⟨told, c', harmed⟩ :=
      run_armed hunplanned hrearm hle hconfirmed hwaiting hkept halone
    exact ⟨told, harmed.heard, harmed.ascending, harmed.exact⟩
  case once =>
    intro mid op' rest hsplit
    have hinit : ∀ mid' op'' rest', mid = mid' ++ op'' :: rest' →
        later = mid' ++ op'' :: (rest' ++ op' :: rest) := by
      rintro mid' op'' rest' rfl
      simp [hsplit]
    obtain ⟨told, c₁, harmed⟩ := run_armed hunplanned hrearm hle hconfirmed hwaiting
      (fun mid' op'' rest' hmid => hkept mid' op'' _ (hinit mid' op'' rest' hmid))
      (fun mid' op'' rest' hmid => halone mid' op'' _ (hinit mid' op'' rest' hmid))
    obtain ⟨c₂, hears⟩ := perform_hears (hrun mid) hrearm (hkept mid op' rest hsplit)
      (halone mid op' rest hsplit) (EntryId.not_max_lt prev c₁) harmed.waiting harmed.confirmed
    rw [run_concat]
    exact hears.length_le
  case ends =>
    intro mid op' rest hsplit
    rw [run_concat]
    exact perform_tells (hrun mid) op'

/-- Whatever others do in turn, a watcher who waits again whenever it is told hears of every
advance beyond what it knew at first, once and in order, exactly if it is waiting whenever more
is confirmed. It is if calls come one after another. -/
theorem follower_hears_iff_attended :
    (∀ {l : LedgerId} {who : Watcher} {prev : EntryId} {earlier begun : Watching} {s : Following},
      Following.Begins l who prev earlier begun → Leads l who (.begin begun) s →
        (HearsAll l who prev begun.log.length begun.store s ↔
          Attended l who begun.log.length s.watching.log)) ∧
    ∀ {pre later : List Op} {op : Op} {l : LedgerId} {who : Watcher} {prev : EntryId},
      let w := (start none).run pre
      let w' := (w.perform op).2
      who.reaction = .rearm → w.sent? op = some (.watch l prev who) →
        (w.perform op).1 = .ok (.flag true) →
        (∀ mid op' rest, later = mid ++ op' :: rest → (w'.run mid).removed? op' ≠ some l) →
        (∀ mid op' rest, later = mid ++ op' :: rest → ¬ (w'.run mid).Meddles op' l who) →
        HearsEvery w' l who prev later :=
  ⟨hearsAll_iff_attended, fun hrearm hsent hgranted hkept halone =>
    rearming_watcher_hears_every_advance rfl hrearm hsent hgranted rfl hkept halone⟩

/-- A watcher that waits again whenever it is told. -/
def follower : Watcher := ⟨"follower", .rearm⟩

/-- Entries that confirm more, less, and more again, while somebody else comes to wait, too. -/
def advancing : List Op :=
  [.append .direct (Entry.encode ⟨1⟩ ⟨0⟩ ⟨5⟩ []),
    .request .direct (.watch ⟨1⟩ ⟨6⟩ ⟨"other", .rearm⟩),
    .append .direct (Entry.encode ⟨1⟩ ⟨1⟩ ⟨3⟩ []), .append .direct (Entry.encode ⟨1⟩ ⟨2⟩ ⟨7⟩ [])]

/-- One who waits, too, and makes a note when it is told. -/
def bystander : Watcher := ⟨"bystander", .record⟩

/-- A ledger on which the bystander waits. -/
def expecting : List Op :=
  [.request .direct (.bindKey ⟨1⟩ []), .request .direct (.watch ⟨1⟩ .unset bystander)]

/-- The follower comes to wait, too. -/
def joined : List Op := expecting ++ [.request .direct (.watch ⟨1⟩ .unset follower)]

theorem joined_begins :
    Following.Begins ⟨1⟩ follower .unset ((start none).watchOver .start expecting)
      ((start none).watchOver .start joined) where
  reachable := (watchOver_mirrors (w := start none) ⟨.start, rfl, rfl, rfl⟩ expecting).reachable
  granted := ⟨_, rfl, rfl⟩
  quiet := rfl

/-- Two entries confirm more, and the bystander stops waiting before the follower waits again. In
turn or one call after another, the follower is told of the fifth and of the seventh. -/
theorem attended_follower_hears :
    (∃ s, Leads ⟨1⟩ follower (.begin ((start none).watchOver .start joined)) s ∧
      s.heard = [(⟨5⟩, .ok true)] ∧ s.watching.coming ⟨1⟩ follower = [⟨7⟩] ∧
      HearsAll ⟨1⟩ follower .unset ((start none).watchOver .start joined).log.length
        ((start none).watchOver .start joined).store s) ∧
    HearsEvery ((start none).run joined) ⟨1⟩ follower .unset advancing ∧
      (((start none).run joined).run advancing).heard ⟨1⟩ follower =
        [(⟨5⟩, .rearmed (.ok true)), (⟨7⟩, .rearmed (.ok true))] := by
  obtain ⟨hturns, hcalls⟩ := follower_hears_iff_attended
  refine ⟨?_, ?_, rfl⟩
  · obtain ⟨s, hleads, hheard, hcoming, hlog⟩ :
        ∃ s, Leads ⟨1⟩ follower (.begin ((start none).watchOver .start joined)) s ∧
          s.heard = [(⟨5⟩, .ok true)] ∧ s.watching.coming ⟨1⟩ follower = [⟨7⟩] ∧
          s.watching.log = [.waits ⟨1⟩ .unset bystander, .waits ⟨1⟩ .unset follower,
            .advances ⟨1⟩ ⟨5⟩, .cancels ⟨1⟩ bystander, .waits ⟨1⟩ ⟨5⟩ follower,
            .advances ⟨1⟩ ⟨7⟩] :=
      ⟨_,
        .tail (.tail (.tail (.tail (.single
          (.others (@Watching.Step.append _ (Entry.encode ⟨1⟩ ⟨0⟩ ⟨5⟩ []) _ _ _ _ rfl rfl)
            ⟨rfl, _, rfl, by decide⟩))
          (@Following.Step.told _ _ _ [_] [] _ _ rfl))
          (.others (@Watching.Step.unwatch _ ⟨1⟩ bystander _ rfl) ⟨rfl, _, rfl, by decide⟩))
          (.waits rfl))
          (.others (@Watching.Step.append _ (Entry.encode ⟨1⟩ ⟨1⟩ ⟨7⟩ []) _ _ _ _ rfl rfl)
            ⟨rfl, _, rfl, by decide⟩),
        rfl, rfl, rfl⟩
    refine ⟨s, hleads, hheard, hcoming, (hturns joined_begins hleads).mpr ?_⟩
    intro place c hplace hat
    rw [hlog] at hat ⊢
    obtain _ | _ | _ | _ | _ | _ | place := place
    all_goals first | rfl | cases hat
  · have hother : (⟨"other", .rearm⟩ : Watcher) ≠ follower := by decide
    refine @hcalls expecting advancing (.request .direct (.watch ⟨1⟩ .unset follower)) ⟨1⟩
      follower .unset rfl rfl rfl ?_ ?_
    · intro mid op' rest hsplit
      have hop : op' ∈ advancing := by simp [hsplit]
      simp only [advancing, List.mem_cons, List.not_mem_nil, or_false] at hop
      rcases hop with rfl | rfl | rfl | rfl <;> exact nofun
    · intro mid op' rest hsplit
      have hop : op' ∈ advancing := by simp [hsplit]
      simp only [advancing, List.mem_cons, List.not_mem_nil, or_false] at hop
      rcases hop with rfl | rfl | rfl | rfl <;> simp [Meddles, sent?, hother]

/-- An entry confirms the fifth. While the bystander is told of that, the seventh is confirmed.
The follower, who was not told yet, is then refused its next wait, and misses the seventh. -/
theorem overtaken_follower_misses :
    Following.Begins ⟨1⟩ follower .unset ((start none).watchOver .start expecting)
      ((start none).watchOver .start joined) ∧
    ∃ s, Leads ⟨1⟩ follower (.begin ((start none).watchOver .start joined)) s ∧
      s.due = none ∧ s.watching.pending = [] ∧ s.heard = [(⟨5⟩, .ok false)] ∧
      s.watching.store.confirmedOf? ⟨1⟩ = some ⟨7⟩ ∧
      ¬ HearsAll ⟨1⟩ follower .unset ((start none).watchOver .start joined).log.length
        ((start none).watchOver .start joined).store s := by
  have hmissed : ¬ (Except.ok false : Except StoreError Bool) = .ok true := by decide
  exact ⟨joined_begins, _,
    .tail (.tail (.tail (.tail (.single
      (.others (@Watching.Step.append _ (Entry.encode ⟨1⟩ ⟨0⟩ ⟨5⟩ []) _ _ _ _ rfl rfl)
        ⟨rfl, _, rfl, by decide⟩))
      (.others (@Watching.Step.tell _ [] _ _ rfl) ⟨rfl, [], rfl, by simp⟩))
      (.others (@Watching.Step.append _ (Entry.encode ⟨1⟩ ⟨1⟩ ⟨7⟩ []) _ _ _ _ rfl rfl)
        ⟨rfl, _, rfl, by decide⟩))
      (@Following.Step.told _ _ _ [] _ _ _ rfl))
      (.waits rfl),
    rfl, rfl, rfl, rfl, fun hall => hmissed (hall.granted _ (List.mem_singleton_self _))⟩

end Host

end FencedLedger
