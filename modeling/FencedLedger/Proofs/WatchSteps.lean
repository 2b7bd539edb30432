import FencedLedger.Proofs.WatchLog

/-!
# Waiting, step by step

A store whose callers take turns between any two actions, as notices are told
after the store has changed and may come to those who wait at any time. The state
keeps a log and the notices that were told or are yet to be. What has to hold of
all states is an invariant: who waits in the store is who waits by the log, and
the notices are those that the log causes, each once. Notices may overtake each
other.
-/

namespace FencedLedger

open WatchEvent

/-- A store, what happened to it, and the notices for those who waited. -/
structure Watching where
  store : Store
  log : List WatchEvent
  pending : List Issue
  told : List Issue

namespace Watching

/-- A store without ledgers. -/
def start : Watching := ⟨.empty, [], [], []⟩

/-- The notices, whether they have been told or not. -/
def issued (s : Watching) : List Issue := s.told ++ s.pending

/-- The advance of a ledger from one store to the next, if there is one. -/
def advance (l : LedgerId) (s s' : Store) : List WatchEvent :=
  match s.confirmedOf? l, s'.confirmedOf? l with
  | some before, some after => if before < after then [.advances l after] else []
  | _, _ => []

/-- What may happen next. -/
inductive Step (s : Watching) : Watching → Prop where
  | watch {l : LedgerId} {known : EntryId} {who : Watcher} {waits : Bool} {store : Store}
      (h : Store.watch l known who s.store = .ok (waits, store)) :
      Step s { s with store, log := s.log ++ if waits then [.waits l known who] else [] }
  | unwatch {l : LedgerId} {who : Watcher} {store : Store}
      (h : Store.unwatch l who s.store = .ok ((), store)) :
      Step s { s with store, log := s.log ++ [.cancels l who] }
  | append {entry : Bytes} {header : Entry.Header} {id : EntryId} {notices : List Notice}
      {store : Store} (named : Entry.readHeader entry = .ok header)
      (h : Store.append entry s.store = .ok ((id, notices), store)) :
      Step s { s with
        store
        log := s.log ++ advance header.ledger s.store store
        pending := s.pending ++ notices.map (Issue.mk s.log.length) }
  | remove {present : Subscriber → Bool} {l : LedgerId} {removed : Bool × List Subscriber}
      {store : Store} (h : Store.remove present l s.store = .ok (removed, store)) :
      Step s { s with store, log := s.log ++ [.removes l] }
  /-- One of those who are to be told is told. -/
  | tell {before after : List Issue} {issue : Issue} (h : s.pending = before ++ issue :: after) :
      Step s { s with pending := before ++ after, told := s.told ++ [issue] }
  /-- Something that has nothing to do with watchers. -/
  | elsewhere {store : Store} (h : s.store.Undisturbed store) : Step s { s with store }

/-- What can come of any number of steps. -/
inductive Reachable : Watching → Prop where
  | start : Reachable start
  | step {s s' : Watching} (h : Reachable s) (hstep : Step s s') : Reachable s'

/-! ### The invariant -/

variable {s s' : Watching}

/-- The ledger of a notice was removed since, or what the notice tells of can be
read of it. -/
def Readable (store : Store) (log : List WatchEvent) (issue : Issue) : Prop :=
  (∃ place, issue.place < place ∧ log[place]? = some (.removes issue.notice.ledger)) ∨
    ∃ c, store.confirmedOf? issue.notice.ledger = some c ∧ ¬ c < issue.notice.confirmed

structure Sound (s : Watching) : Prop where
  waiting : ∀ l who, s.store.waiting? l who = standing s.log l who
  ahead : ∀ {l who known c}, s.store.waiting? l who = some known →
    s.store.confirmedOf? l = some c → ¬ known < c
  issued : ∀ issue, issue ∈ s.issued ↔ issue.CausedBy s.log
  once : s.issued.Nodup
  readable : ∀ issue ∈ s.issued, Readable s.store s.log issue

/-- What can be read goes on to be, as long as less is not confirmed of any ledger
but one that is removed. -/
theorem Readable.concat {store store' : Store} {log : List WatchEvent} {issue : Issue}
    {e : WatchEvent} (h : Readable store log issue) (hplace : issue.place < log.length)
    (hkept : ∀ {l c told}, store.confirmedOf? l = some c → ¬ c < told →
      (∃ c', store'.confirmedOf? l = some c' ∧ ¬ c' < told) ∨ e = .removes l) :
    Readable store' (log ++ [e]) issue := by
  rcases h with ⟨place, hlater, hremoved⟩ | ⟨c, hc, hle⟩
  · refine Or.inl ⟨place, hlater, ?_⟩
    rw [List.getElem?_append_left (List.getElem?_eq_some_iff.mp hremoved).1]
    exact hremoved
  · rcases hkept hc hle with hconfirmed | hremoves
    · exact Or.inr hconfirmed
    · refine Or.inl ⟨log.length, hplace, ?_⟩
      rw [List.getElem?_concat_length, hremoves]

theorem Sound.place_lt (h : Sound s) {issue : Issue} (hissue : issue ∈ s.issued) :
    issue.place < s.log.length :=
  ((h.issued issue).mp hissue).place_lt

theorem sound_start : Sound start where
  waiting _ _ := rfl
  ahead hwaiting := by cases hwaiting
  issued issue := by simp [Watching.issued, start, Issue.CausedBy]
  once := .nil
  readable := by simp [Watching.issued, start]

/-- An event that is no advance causes no notice. -/
theorem Sound.event (h : Sound s) {store : Store} {e : WatchEvent}
    (hquiet : ∀ l c, e ≠ .advances l c)
    (hwaiting : ∀ l who, store.waiting? l who = stand l who (s.store.waiting? l who) e)
    (hahead : ∀ {l who known c}, store.waiting? l who = some known →
      store.confirmedOf? l = some c → ¬ known < c)
    (hconfirmed : ∀ {l c}, s.store.confirmedOf? l = some c →
      store.confirmedOf? l = some c ∨ e = .removes l) :
    Sound { s with store, log := s.log ++ [e] } where
  waiting l who := by
    rw [hwaiting, h.waiting, standing_concat]
  ahead := hahead
  issued issue := by
    rw [Issue.causedBy_concat]
    constructor
    · exact fun hissue => Or.inl ((h.issued issue).mp hissue)
    · rintro (hcaused | ⟨-, hadvance, -⟩)
      · exact (h.issued issue).mpr hcaused
      · exact (hquiet _ _ hadvance).elim
  once := h.once
  readable issue hissue :=
    (h.readable issue hissue).concat (h.place_lt hissue) fun hc hle =>
      (hconfirmed hc).imp_left fun hc => ⟨_, hc, hle⟩

/-- A wait that is granted is logged, and one that is refused leaves no trace. -/
theorem Sound.watch (h : Sound s) {l : LedgerId} {known : EntryId} {who : Watcher} {waits : Bool}
    {store : Store} (hact : Store.watch l known who s.store = .ok (waits, store)) :
    Sound { s with store, log := s.log ++ if waits then [.waits l known who] else [] } := by
  obtain ⟨c, hc, ⟨rfl, -, rfl⟩ | ⟨rfl, hle, hconfirmed, hwaiting⟩⟩ := Store.watch_spec hact
  · simpa using h
  · refine h.event (by simp) hwaiting ?_ fun hc' => Or.inl ((hconfirmed _).trans hc')
    intro l' who' known' c' hwaits hc'
    rw [hwaiting] at hwaits
    rw [hconfirmed] at hc'
    split at hwaits
    next hsame =>
      obtain ⟨rfl, rfl⟩ := hsame
      cases hwaits
      cases hc.symm.trans hc'
      exact hle
    next => exact h.ahead hwaits hc'

/-- Whoever waits no more is logged, whether it waited or not. -/
theorem Sound.unwatch (h : Sound s) {l : LedgerId} {who : Watcher} {store : Store}
    (hact : Store.unwatch l who s.store = .ok ((), store)) :
    Sound { s with store, log := s.log ++ [.cancels l who] } := by
  obtain ⟨hconfirmed, hwaiting⟩ := Store.unwatch_spec hact
  refine h.event (by simp) hwaiting ?_ fun hc => Or.inl ((hconfirmed _).trans hc)
  intro l' who' known' c' hwaits hc'
  rw [hwaiting] at hwaits
  rw [hconfirmed] at hc'
  split at hwaits
  next => cases hwaits
  next => exact h.ahead hwaits hc'

/-- A ledger that is removed takes all waits for it along, in the store and in the log. -/
theorem Sound.remove (h : Sound s) {present : Subscriber → Bool} {l : LedgerId}
    {removed : Bool × List Subscriber} {store : Store}
    (hact : Store.remove present l s.store = .ok (removed, store)) :
    Sound { s with store, log := s.log ++ [.removes l] } := by
  obtain ⟨hremoves, -⟩ := Store.remove_spec hact
  refine h.event (by simp) hremoves.waiting? ?_ ?_
  · intro l' who' known' c' hwaits hc'
    rw [hremoves.waiting?] at hwaits
    rw [hremoves.confirmedOf?] at hc'
    split at hwaits
    next => cases hwaits
    next hother =>
      rw [if_neg hother] at hc'
      exact h.ahead hwaits hc'
  · intro l' c hc
    rw [hremoves.confirmedOf?]
    by_cases hsame : l = l'
    · exact Or.inr (hsame ▸ rfl)
    · rw [if_neg hsame]
      exact Or.inl hc

/-- What concerns no watcher is not logged. -/
theorem Sound.elsewhere (h : Sound s) {store : Store} (hsame : s.store.Undisturbed store) :
    Sound { s with store } where
  waiting l who := (hsame.waiting l who).trans (h.waiting l who)
  ahead {l who known c} hwaits hc := by
    rw [hsame.waiting] at hwaits
    obtain ⟨c', hc'⟩ := Store.exists_confirmedOf? hwaits
    cases (hsame.confirmed hc').symm.trans hc
    exact h.ahead hwaits hc'
  issued := h.issued
  once := h.once
  readable issue hissue := (h.readable issue hissue).imp_right fun ⟨c, hc, hle⟩ =>
    ⟨c, hsame.confirmed hc, hle⟩

theorem advance_of_raises {l : LedgerId} {after : EntryId} {notices : List Notice}
    {store store' : Store} (h : Store.Raises l after notices store store') :
    advance l store store' = [.advances l after] := by
  obtain ⟨c, hc, hlt⟩ := h.before
  simp [advance, hc, h.confirmed, hlt]

/-- An entry that confirms no more is no advance. -/
theorem advance_of_eq {l : LedgerId} {store store' : Store}
    (h : store'.confirmedOf? l = store.confirmedOf? l) : advance l store store' = [] := by
  unfold advance
  rw [h]
  cases store.confirmedOf? l with
  | none => rfl
  | some c => exact if_neg (EntryId.not_lt_self c)

theorem issued_append (s : Watching) (store : Store) (log : List WatchEvent) (new : List Issue) :
    Watching.issued { s with store, log, pending := s.pending ++ new } = s.issued ++ new :=
  (List.append_assoc _ _ _).symm

/-- The notices of an advance are those that it causes. -/
theorem mem_issues_of_raises (h : Sound s) {l : LedgerId} {after : EntryId}
    {notices : List Notice} {store : Store} (hraises : Store.Raises l after notices s.store store)
    (issue : Issue) :
    issue ∈ notices.map (Issue.mk s.log.length) ↔ issue.place = s.log.length ∧
      WatchEvent.advances l after = .advances issue.notice.ledger issue.notice.confirmed ∧
      ∃ known, standing s.log issue.notice.ledger issue.notice.watcher = some known ∧
        known < issue.notice.confirmed := by
  obtain ⟨place, notice⟩ := issue
  simp only [List.mem_map, Issue.mk.injEq, WatchEvent.advances.injEq, ← h.waiting]
  constructor
  · rintro ⟨n, hn, rfl, rfl⟩
    obtain ⟨rfl, rfl, hwaits⟩ := (hraises.notices n).mp hn
    exact ⟨rfl, ⟨rfl, rfl⟩, hwaits⟩
  · rintro ⟨rfl, ⟨rfl, rfl⟩, hwaits⟩
    exact ⟨notice, (hraises.notices notice).mpr ⟨rfl, rfl, hwaits⟩, rfl, rfl⟩

/-- An advance causes a notice to each watcher whose wait stood and went beyond
what the watcher knew of. -/
theorem Sound.raise (h : Sound s) {l : LedgerId} {after : EntryId} {notices : List Notice}
    {store : Store} (hraises : Store.Raises l after notices s.store store) :
    Sound { s with
      store
      log := s.log ++ [.advances l after]
      pending := s.pending ++ notices.map (Issue.mk s.log.length) } where
  waiting l' who := by
    rw [hraises.waiting, standing_concat, ← h.waiting]
    rfl
  ahead {l' who known c} hwaits hc := by
    rw [hraises.waiting] at hwaits
    rw [hraises.confirmed] at hc
    split at hwaits
    -- whoever still waits was not taken, so it knows at least as much as is confirmed
    next hsame =>
      rw [if_pos hsame] at hc
      cases hc
      obtain ⟨-, hle⟩ := Option.filter_eq_some_iff.mp hwaits
      simpa using hle
    next hother =>
      rw [if_neg hother] at hc
      exact h.ahead hwaits hc
  issued issue := by
    rw [issued_append, List.mem_append, Issue.causedBy_concat, h.issued,
      mem_issues_of_raises h hraises]
  once := by
    rw [issued_append, List.nodup_append]
    refine ⟨h.once, ?_, ?_⟩
    · refine List.Pairwise.map _ (fun a b hne heq => hne ?_) hraises.once
      exact congrArg Issue.notice heq
    · -- a new notice has a place that no earlier one has
      intro old hold new hnew heq
      obtain ⟨n, -, rfl⟩ := List.mem_map.mp hnew
      have hlt : old.place < s.log.length := h.place_lt hold
      rw [heq] at hlt
      exact Nat.lt_irrefl _ hlt
  readable issue hissue := by
    rw [issued_append, List.mem_append] at hissue
    rcases hissue with hold | hnew
    · exact (h.readable issue hold).concat (h.place_lt hold) fun hc hle =>
        Or.inl (hraises.confirmed_le hc hle)
    · obtain ⟨n, hn, rfl⟩ := List.mem_map.mp hnew
      obtain ⟨hledger, hafter, -⟩ := (hraises.notices n).mp hn
      refine Or.inr ⟨after, ?_, ?_⟩
      · rw [hraises.confirmed, if_pos hledger.symm]
      · rw [hafter]
        exact EntryId.not_lt_self after

/-- An entry is logged if it confirms more, with a notice for everybody who waited for that. -/
theorem Sound.append (h : Sound s) {entry : Bytes} {header : Entry.Header} {id : EntryId}
    {notices : List Notice} {store : Store} (named : Entry.readHeader entry = .ok header)
    (hact : Store.append entry s.store = .ok ((id, notices), store)) :
    Sound { s with
      store
      log := s.log ++ advance header.ledger s.store store
      pending := s.pending ++ notices.map (Issue.mk s.log.length) } := by
  obtain ⟨header', hheader, hcases⟩ := Store.append_cases hact
  cases named.symm.trans hheader
  rcases hcases with ⟨rfl, hsame, hconfirmed⟩ | ⟨after, hraises⟩
  · rw [advance_of_eq hconfirmed]
    simpa using h.elsewhere hsame
  · rw [advance_of_raises hraises]
    exact h.raise hraises

/-- Telling a notice only moves it. -/
theorem Sound.tell (h : Sound s) {before after : List Issue} {issue : Issue}
    (hpending : s.pending = before ++ issue :: after) :
    Sound { s with pending := before ++ after, told := s.told ++ [issue] } := by
  have hperm : ((s.told ++ [issue]) ++ (before ++ after)).Perm s.issued := by
    rw [Watching.issued, hpending, List.append_assoc, List.singleton_append]
    exact List.perm_middle.symm.append_left s.told
  exact ⟨h.waiting, h.ahead, fun other => hperm.mem_iff.trans (h.issued other),
    hperm.nodup_iff.mpr h.once, fun other hother => h.readable other (hperm.mem_iff.mp hother)⟩

/-- Every step keeps the invariant. -/
theorem Sound.step (h : Sound s) (hstep : Step s s') : Sound s' := by
  cases hstep with
  | watch hact => exact h.watch hact
  | unwatch hact => exact h.unwatch hact
  | append named hact => exact h.append named hact
  | remove hact => exact h.remove hact
  | tell hpending => exact h.tell hpending
  | elsewhere hsame => exact h.elsewhere hsame

theorem Reachable.sound (h : Reachable s) : Sound s := by
  induction h with
  | start => exact sound_start
  | step _ hstep ih => exact ih.step hstep

end Watching

end FencedLedger
