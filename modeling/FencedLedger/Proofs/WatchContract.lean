import FencedLedger.Proofs.WatchTraces

/-!
# What becomes of a wait

Whoever waits for more to be confirmed of a ledger is told of the first entry that
brings it, once, and of nothing after the wait was decided otherwise. That holds
whatever happens between storing an entry and telling those whom it concerns. The
calls of a host are runs of such steps, after each of which everybody has been
told. Nothing says how soon a watcher is told.
-/

namespace FencedLedger

open WatchEvent

namespace Watching

variable {s : Watching}

/-- What those who wait may rely on. -/
structure Contract (s : Watching) : Prop where
  /-- Nobody waits for what is confirmed already. -/
  ahead : ∀ {l who known c}, s.store.waiting? l who = some known →
    s.store.confirmedOf? l = some c → ¬ known < c
  single : ∀ {l x}, s.store.ledgers.get? l = some x → x.watches.known.keys.Nodup
  /-- The notices for a wait are none, or the one of the advance that decided it. -/
  notices : ∀ {earlier l known who later}, s.log = earlier ++ .waits l known who :: later →
    ∀ issue, issue ∈ s.issued ∧ issue.IsFor s.log earlier.length l who ↔
      ∃ confirmed, later.find? (decides l known who) = some (.advances l confirmed) ∧
        issue = ⟨earlier.length + 1 + later.findIdx (decides l known who), who, l, confirmed⟩
  once : s.issued.Nodup
  stands : ∀ {earlier l known who later}, s.log = earlier ++ .waits l known who :: later →
    later.find? (decides l known who) = none → s.store.waiting? l who = some known
  readable : ∀ issue ∈ s.issued, Readable s.store s.log issue
  /-- A wait is refused just when the ledger is beyond what the watcher knows of,
  and that changes nothing. -/
  refused : ∀ {l known who waits store}, Store.watch l known who s.store = .ok (waits, store) →
    (waits = false ↔ ∃ c, s.store.confirmedOf? l = some c ∧ known < c) ∧
      (waits = false → store = s.store)

/-- A wait is refused just if more is confirmed already, and then nothing changes. -/
theorem refused_iff {store store' : Store} {l : LedgerId} {known : EntryId} {who : Watcher}
    {waits : Bool} (h : Store.watch l known who store = .ok (waits, store')) :
    (waits = false ↔ ∃ c, store.confirmedOf? l = some c ∧ known < c) ∧
      (waits = false → store' = store) := by
  obtain ⟨c, hc, ⟨rfl, hlt, rfl⟩ | ⟨rfl, hle, -⟩⟩ := Store.watch_spec h
  · exact ⟨⟨fun _ => ⟨c, hc, hlt⟩, fun _ => rfl⟩, fun _ => rfl⟩
  · refine ⟨⟨fun hfalse => Bool.noConfusion hfalse, ?_⟩, fun hfalse => Bool.noConfusion hfalse⟩
    rintro ⟨c', hc', hlt⟩
    cases hc.symm.trans hc'
    exact (hle hlt).elim

/-- The parts of the contract are read off the invariant. -/
theorem Sound.contract (h : Sound s) : Contract s where
  ahead := h.ahead
  single {_ x} _ := x.watches.known.nodup_keys
  notices {earlier l known who later} hlog issue := by
    rw [h.issued, hlog]
    constructor
    · rintro ⟨hcaused, hfor⟩
      exact hcaused.decided hfor
    · rintro ⟨confirmed, hdecided, rfl⟩
      exact ⟨Issue.causedBy_of_decided earlier hdecided, Issue.isFor_of_decided earlier hdecided⟩
  once := h.once
  stands {earlier l known who later} hlog hundecided := by
    rw [h.waiting, hlog]
    refine standing_of_undecided earlier fun e he => ?_
    simpa using List.find?_eq_none.mp hundecided e he
  readable := h.readable
  refused := refused_iff

end Watching

open Watching

namespace Host

variable {w w' : Host}

/-! ### Runs of a host -/

/-- The state behind a run. -/
def watchOver : Host → Watching → List Op → Watching
  | _, s, [] => s
  | w, s, op :: ops =>
      watchOver (w.perform op).2 (s.follow (w.perform op).2.store (w.watchTrace op)) ops

/-- The state is one of the host, and leaves nobody to be told. -/
structure Mirrors (s : Watching) (w : Host) : Prop where
  reachable : Reachable s
  store : s.store = w.store
  pending : s.pending = []
  notified : s.told.map Issue.notice = w.notified

/-- The call of a host is followed step by step. -/
theorem Follows.mirrors {trace : List WatchEvent × List Notice} (h : Follows w w' trace)
    {s : Watching} (hs : Mirrors s w) : Mirrors (s.follow w'.store trace) w' where
  reachable := h.reachable s hs.reachable hs.store
  store := rfl
  pending := hs.pending
  notified := by
    rw [h.notified, ← hs.notified, follow, List.map_append, List.map_map]
    congr 1
    exact List.map_id _

theorem watchOver_mirrors {s : Watching} (hs : Mirrors s w) (ops : List Op) :
    Mirrors (w.watchOver s ops) (w.run ops) := by
  induction ops generalizing w s with
  | nil => exact hs
  | cons op ops ih => exact ih ((perform_follows w op).mirrors hs)

/-- Those who wait may rely on the contract, whoever takes turns with those who
tell them. The runs of a host are among these, and what they tell watchers is what
the contract is about. -/
theorem watch_contract (faults : Option FaultPlan) :
    (∀ {s}, Reachable s → s.Contract) ∧
      ∀ ops, Mirrors ((start faults).watchOver .start ops) ((start faults).run ops) :=
  ⟨fun hs => hs.sound.contract, watchOver_mirrors ⟨.start, rfl, rfl, rfl⟩⟩

/-- A watcher that waits again whenever it is told. -/
def sleeper : Watcher := ⟨"sleeper", .rearm⟩

/-- Two entries that confirm more are stored. Between them the watcher waits no
more. -/
def waking : List Op :=
  [.request .direct (.bindKey ⟨1⟩ []), .request .direct (.watch ⟨1⟩ .unset sleeper),
    .append .direct (Entry.encode ⟨1⟩ ⟨0⟩ ⟨5⟩ []), .request .direct (.unwatch ⟨1⟩ sleeper),
    .append .direct (Entry.encode ⟨1⟩ ⟨1⟩ ⟨7⟩ [])]

/-- The first wait is told of the first advance, and the second wait of none. -/
theorem told_until_cancelled :
    (∀ issue, issue ∈ ((start none).watchOver .start waking).issued ∧
        issue.IsFor ((start none).watchOver .start waking).log 0 ⟨1⟩ sleeper ↔
      issue = ⟨1, sleeper, ⟨1⟩, ⟨5⟩⟩) ∧
      ∀ issue ∈ ((start none).watchOver .start waking).issued,
        ¬ issue.IsFor ((start none).watchOver .start waking).log 2 ⟨1⟩ sleeper := by
  obtain ⟨hcontract, hruns⟩ := watch_contract none
  have hkept := hcontract (hruns waking).reachable
  have hlog : ((start none).watchOver .start waking).log =
      [.waits ⟨1⟩ .unset sleeper, .advances ⟨1⟩ ⟨5⟩, .waits ⟨1⟩ ⟨5⟩ sleeper,
        .cancels ⟨1⟩ sleeper, .advances ⟨1⟩ ⟨7⟩] := rfl
  constructor
  · intro issue
    have hfirst := hkept.notices (show _ = [] ++ _ :: _ from hlog) issue
    refine hfirst.trans ?_
    constructor
    · rintro ⟨confirmed, hdecided, rfl⟩
      cases hdecided
      rfl
    · rintro rfl
      exact ⟨⟨5⟩, rfl, rfl⟩
  · intro issue hissue hfor
    have hsecond := hkept.notices (show _ = [_, _] ++ _ :: _ from hlog) issue
    obtain ⟨confirmed, hdecided, -⟩ := hsecond.mp ⟨hissue, hfor⟩
    cases hdecided

end Host

end FencedLedger
