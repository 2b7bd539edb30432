import FencedLedger.Proofs.WatchViews

/-!
# The log of waits

A log tells in which order watchers were let wait or stopped waiting, more was
confirmed of ledgers, and ledgers were removed. The first event after a wait that
decides it says what becomes of the wait: an advance beyond what the watcher
knows of causes one notice, and whatever else decides it causes none. This is
about any log in which each advance causes a notice to every watcher whose wait
stands, whatever wrote it.
-/

namespace FencedLedger

/-- What matters to those who wait. -/
inductive WatchEvent where
  /-- A watcher was let wait for an advance beyond what it knows of. -/
  | waits (ledger : LedgerId) (known : EntryId) (who : Watcher)
  /-- A watcher waits no more, if it waited. -/
  | cancels (ledger : LedgerId) (who : Watcher)
  /-- An entry was stored that tells of a later confirmed one. -/
  | advances (ledger : LedgerId) (confirmed : EntryId)
  /-- A ledger was removed. -/
  | removes (ledger : LedgerId)
  deriving DecidableEq

/-- A notice, and the place in the log of the advance that caused it. -/
structure Issue where
  place : Nat
  notice : Notice
  deriving DecidableEq

namespace WatchEvent

variable {l : LedgerId} {known : EntryId} {who : Watcher} {e : WatchEvent}
  {log later : List WatchEvent} {issue : Issue}

/-- Whether an event decides a wait for an advance beyond `known`. -/
def decides (l : LedgerId) (known : EntryId) (who : Watcher) : WatchEvent → Bool
  | .waits l' _ who' => l' = l && who' = who
  | .cancels l' who' => l' = l && who' = who
  | .advances l' confirmed => l' = l && known < confirmed
  | .removes l' => l' = l

/-- Whether an event lets a watcher wait on a ledger. -/
def isWait (l : LedgerId) (who : Watcher) : WatchEvent → Bool
  | .waits l' _ who' => l' = l && who' = who
  | _ => false

/-! ### Standing waits -/

/-- What an event makes of the wait of a watcher that stands, if one does. -/
def stand (l : LedgerId) (who : Watcher) (standing : Option EntryId) :
    WatchEvent → Option EntryId
  | .waits l' known who' => if l' = l ∧ who' = who then some known else standing
  | .cancels l' who' => if l' = l ∧ who' = who then none else standing
  | .advances l' confirmed =>
      if l' = l then standing.filter fun known => !decide (known < confirmed) else standing
  | .removes l' => if l' = l then none else standing

/-- What a watcher knows of whose wait stands after a log. -/
def standing (log : List WatchEvent) (l : LedgerId) (who : Watcher) : Option EntryId :=
  log.foldl (stand l who) none

theorem standing_concat (log : List WatchEvent) (e : WatchEvent) (l : LedgerId)
    (who : Watcher) : standing (log ++ [e]) l who = stand l who (standing log l who) e := by
  simp [standing]

theorem stand_none (h : e.isWait l who = false) : stand l who none e = none := by
  cases e <;> simp_all [stand, isWait]

/-- A wait that stands goes on until an event decides it. -/
theorem stand_some (h : e.isWait l who = false) :
    stand l who (some known) e = if e.decides l known who then none else some known := by
  cases e with
  | waits l' known' who' =>
      have hother : ¬ (l' = l ∧ who' = who) := by simpa [isWait] using h
      simp [stand, decides, hother]
  | cancels l' who' => by_cases hsame : l' = l ∧ who' = who <;> simp [stand, decides, hsame]
  | advances l' confirmed =>
      by_cases hledger : l' = l <;> by_cases hlt : known < confirmed <;>
        simp [stand, decides, hledger, hlt, Option.filter]
  | removes l' => by_cases hledger : l' = l <;> simp [stand, decides, hledger]

/-- Without another wait, a wait stands until it is decided, and not again. -/
theorem foldl_stand (h : ∀ e ∈ log, e.isWait l who = false) :
    log.foldl (stand l who) (some known) =
      if log.any (decides l known who) then none else some known := by
  have hnone : ∀ {log : List WatchEvent}, (∀ e ∈ log, e.isWait l who = false) →
      log.foldl (stand l who) none = none := by
    intro log h
    induction log with
    | nil => rfl
    | cons e log ih =>
        rw [List.foldl_cons, stand_none (h e List.mem_cons_self)]
        exact ih fun e he => h e (List.mem_cons_of_mem _ he)
  induction log with
  | nil => rfl
  | cons e log ih =>
      have hrest : ∀ e ∈ log, e.isWait l who = false := fun e he =>
        h e (List.mem_cons_of_mem _ he)
      rw [List.foldl_cons, stand_some (h e List.mem_cons_self), List.any_cons]
      split
      next hdecided => rw [hnone hrest, hdecided, Bool.true_or, if_pos rfl]
      next hundecided =>
        rw [ih hrest, Bool.not_eq_true _ |>.mp hundecided, Bool.false_or]

theorem standing_after_wait (earlier : List WatchEvent)
    (h : ∀ e ∈ later, e.isWait l who = false) :
    standing (earlier ++ .waits l known who :: later) l who =
      if later.any (decides l known who) then none else some known := by
  rw [standing, List.foldl_append, List.foldl_cons, stand, if_pos ⟨rfl, rfl⟩]
  exact foldl_stand h

/-- Another wait of the watcher decides a wait too. -/
theorem decides_of_isWait (known : EntryId) (h : e.isWait l who = true) :
    e.decides l known who = true := by
  cases e <;> simp_all [isWait, decides]

/-- A wait that nothing has decided stands as it was made. -/
theorem standing_of_undecided (earlier : List WatchEvent)
    (h : ∀ e ∈ later, e.decides l known who = false) :
    standing (earlier ++ .waits l known who :: later) l who = some known := by
  have hnone : later.any (decides l known who) = false := by simpa using h
  rw [standing_after_wait, hnone, if_neg Bool.false_ne_true]
  intro e he
  refine Bool.eq_false_iff.mpr fun hwait => ?_
  exact Bool.false_ne_true ((h e he).symm.trans (decides_of_isWait known hwait))

end WatchEvent

open WatchEvent

namespace Issue

variable {l : LedgerId} {known confirmed : EntryId} {who : Watcher}
  {log earlier later : List WatchEvent} {issue : Issue}

/-- The log has the advance that the notice is about, and it went beyond what the
watcher knew of, whose wait stood. -/
def CausedBy (log : List WatchEvent) (issue : Issue) : Prop :=
  log[issue.place]? = some (.advances issue.notice.ledger issue.notice.confirmed) ∧
    ∃ known, standing (log.take issue.place) issue.notice.ledger issue.notice.watcher =
      some known ∧ known < issue.notice.confirmed

/-- The wait at a place of the log is the last one before the advance that caused
the notice. -/
structure IsFor (log : List WatchEvent) (place : Nat) (l : LedgerId) (who : Watcher)
    (issue : Issue) : Prop where
  ledger : issue.notice.ledger = l
  watcher : issue.notice.watcher = who
  later : place < issue.place
  last : ∀ e ∈ (log.take issue.place).drop (place + 1), e.isWait l who = false

theorem CausedBy.place_lt (h : issue.CausedBy log) : issue.place < log.length :=
  (List.getElem?_eq_some_iff.mp h.1).1

/-- A notice is caused by an event of the log, at the place of that event. -/
theorem causedBy_concat (log : List WatchEvent) (e : WatchEvent) (issue : Issue) :
    issue.CausedBy (log ++ [e]) ↔ issue.CausedBy log ∨ issue.place = log.length ∧
      e = .advances issue.notice.ledger issue.notice.confirmed ∧
      ∃ known, standing log issue.notice.ledger issue.notice.watcher = some known ∧
        known < issue.notice.confirmed := by
  unfold CausedBy
  rcases Nat.lt_trichotomy issue.place log.length with hlt | heq | hgt
  · rw [List.getElem?_append_left hlt, List.take_append_of_le_length (Nat.le_of_lt hlt)]
    simp [Nat.ne_of_lt hlt]
  · rw [heq, List.getElem?_concat_length, List.take_append_of_le_length (Nat.le_refl _),
      List.take_length, List.getElem?_eq_none (Nat.le_refl _)]
    simp
  · rw [List.getElem?_eq_none (by simp; omega), List.getElem?_eq_none (by omega)]
    simp [Nat.ne_of_gt hgt]

/-- A notice for a wait is caused by the event that decides the wait. -/
theorem CausedBy.decided (hcaused : issue.CausedBy (earlier ++ .waits l known who :: later))
    (hfor : issue.IsFor (earlier ++ .waits l known who :: later) earlier.length l who) :
    ∃ confirmed, later.find? (decides l known who) = some (.advances l confirmed) ∧
      issue = ⟨earlier.length + 1 + later.findIdx (decides l known who), who, l, confirmed⟩ := by
  obtain ⟨place, watcher, ledger, confirmed⟩ := issue
  obtain ⟨rfl, rfl, hlater, hlast⟩ := hfor
  obtain ⟨hat, known', hstands, hlt⟩ := hcaused
  dsimp only at *
  obtain ⟨m, rfl⟩ : ∃ m, place = earlier.length + (m + 1) :=
    ⟨place - (earlier.length + 1), by omega⟩
  rw [List.take_length_add_append, List.take_succ_cons] at hstands hlast
  rw [List.getElem?_append_right (Nat.le_add_right _ _), Nat.add_sub_cancel_left,
    List.getElem?_cons_succ] at hat
  have hwaits : ∀ e ∈ later.take m, e.isWait ledger watcher = false := by simpa using hlast
  -- so no event in between decided the wait, as none would let it stand
  rw [standing_after_wait earlier hwaits] at hstands
  split at hstands
  next => cases hstands
  next hundecided =>
    cases hstands
    obtain ⟨hm, hget⟩ := List.getElem?_eq_some_iff.mp hat
    have hdecides : decides ledger known watcher later[m] = true := by
      rw [hget]
      simpa [decides] using hlt
    have hbefore : ∀ j, (hj : j < m) → decides ledger known watcher later[j] = false := by
      intro j hj
      refine Bool.eq_false_iff.mpr fun htrue => hundecided (List.any_eq_true.mpr ?_)
      exact ⟨_, List.mem_take_iff_getElem.mpr ⟨j, by omega, rfl⟩, htrue⟩
    have hindex : later.findIdx (decides ledger known watcher) = m :=
      (List.findIdx_eq hm).mpr ⟨hdecides, hbefore⟩
    refine ⟨confirmed, ?_, by rw [hindex]; congr 1; omega⟩
    rw [List.find?_eq_some_iff_getElem]
    exact ⟨hget ▸ hdecides, m, hm, hget, fun j hj => by rw [hbefore j hj]; rfl⟩

/-- Nothing decides a wait before the first event that does. -/
theorem split_of_decided
    (h : later.find? (decides l known who) = some (.advances l confirmed)) :
    ∃ before after, later = before ++ .advances l confirmed :: after ∧
      later.findIdx (decides l known who) = before.length ∧ known < confirmed ∧
      ∀ e ∈ before, e.decides l known who = false := by
  obtain ⟨hdecides, before, after, rfl, hbefore⟩ := List.find?_eq_some_iff_append.mp h
  have hundecided : ∀ e ∈ before, e.decides l known who = false := fun e he => by
    simpa using hbefore e he
  refine ⟨before, after, rfl, ?_, by simpa [decides] using hdecides, hundecided⟩
  rw [List.findIdx_append, List.findIdx_eq_length.mpr hundecided, if_neg (Nat.lt_irrefl _),
    List.findIdx_cons, hdecides]
  simp

/-- An advance that decides a wait causes a notice for it. -/
theorem causedBy_of_decided (earlier : List WatchEvent)
    (h : later.find? (decides l known who) = some (.advances l confirmed)) :
    CausedBy (earlier ++ .waits l known who :: later)
      ⟨earlier.length + 1 + later.findIdx (decides l known who), who, l, confirmed⟩ := by
  obtain ⟨before, after, hsplit, hindex, hlt, hundecided⟩ := split_of_decided h
  have hlog : earlier ++ .waits l known who :: later =
      (earlier ++ .waits l known who :: before) ++ .advances l confirmed :: after := by
    simp [hsplit]
  have hplace : earlier.length + 1 + before.length =
      (earlier ++ .waits l known who :: before).length := by
    simp
    omega
  rw [hindex, hlog, hplace]
  refine ⟨by simp, known, ?_, hlt⟩
  dsimp only
  rw [List.take_left]
  exact standing_of_undecided earlier hundecided

/-- It causes the notice for this wait and for none after it. -/
theorem isFor_of_decided (earlier : List WatchEvent)
    (h : later.find? (decides l known who) = some (.advances l confirmed)) :
    IsFor (earlier ++ .waits l known who :: later) earlier.length l who
      ⟨earlier.length + 1 + later.findIdx (decides l known who), who, l, confirmed⟩ where
  ledger := rfl
  watcher := rfl
  later := by
    dsimp only
    omega
  last e he := by
    obtain ⟨before, after, hsplit, hindex, -, hundecided⟩ := split_of_decided h
    dsimp only at he
    rw [hindex, Nat.add_assoc, List.take_length_add_append, Nat.add_comm 1, List.take_succ_cons,
      hsplit, List.take_left] at he
    refine Bool.eq_false_iff.mpr fun hwait => ?_
    have hmem : e ∈ before := by simpa using he
    exact Bool.false_ne_true ((hundecided e hmem).symm.trans (decides_of_isWait known hwait))

end Issue

end FencedLedger
