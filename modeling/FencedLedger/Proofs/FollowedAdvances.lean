import FencedLedger.Proofs.ConfirmedEntries
import FencedLedger.Proofs.WatchSteps
import Mathlib.Logic.Relation

/-!
# Following a ledger among others

A follower of a ledger waits again as soon as it is told, for more than it was told of. Others
take turns with it and may do anything, also between an advance and its telling and between
the telling and the next wait, but let it wait on that ledger or wait there no more. If the
follower is waiting whenever more is confirmed of the ledger, it hears of each advance beyond
what it knew at first, once and in order, and is let wait again each time. Otherwise an entry
confirmed more while the follower was between two waits: nobody told it of that entry, its next
wait is refused, and it hears nothing any more.
-/

namespace FencedLedger

namespace EntryId

variable {a b c d : EntryId}

theorem lt_of_le_of_lt (hab : a ≤ b) (hbc : b < c) : a < c := Int64.lt_of_le_of_lt hab hbc

theorem lt_of_lt_of_le (hab : a < b) (hbc : b ≤ c) : a < c := Int64.lt_of_lt_of_le hab hbc

/-- The later of two entries. -/
def max (a b : EntryId) : EntryId := if a < b then b else a

theorem max_lt_iff : a.max b < c ↔ a < c ∧ b < c := by
  unfold max
  split
  next hlt => exact ⟨fun hbc => ⟨Int64.lt_trans hlt hbc, hbc⟩, And.right⟩
  next hle => exact ⟨fun hac => ⟨hac, lt_of_le_of_lt (le_of_not_lt hle) hac⟩, And.left⟩

theorem not_max_lt (a b : EntryId) : ¬ a.max b < b := fun h => not_lt_self b (max_lt_iff.mp h).2

theorem max_of_lt (h : a < b) : a.max b = b := if_pos h

theorem max_of_not_lt (h : ¬ a < b) : a.max b = a := if_neg h

/-- What goes up forgets where it was. -/
theorem max_max_of_not_lt (hcd : ¬ d < c) : (a.max c).max d = a.max d := by
  by_cases hlt : a.max c < d
  · have had := (max_lt_iff.mp hlt).1
    exact (if_pos hlt).trans (if_pos had).symm
  · rw [max_of_not_lt hlt]
    unfold max at hlt ⊢
    by_cases hac : a < c
    · rw [if_pos hac] at hlt ⊢
      rw [if_pos (lt_of_lt_of_le hac (le_of_not_lt hcd))]
      exact le_antisymm (le_of_not_lt hcd) (le_of_not_lt hlt)
    · rw [if_neg hac] at hlt ⊢
      rw [if_neg hlt]

end EntryId

namespace WatchEvent

variable {l : LedgerId} {who : Watcher} {begun : Nat} {log news : List WatchEvent}
  {after : EntryId}

/-- What an event confirms of a ledger. -/
def confirmed? (l : LedgerId) : WatchEvent → Option EntryId
  | .advances l' c => if l' = l then some c else none
  | _ => none

/-- Whether an event neither lets a watcher wait on a ledger or wait there no more, nor
removes the ledger. -/
def spares (l : LedgerId) (who : Watcher) : WatchEvent → Bool
  | .waits l' _ who' | .cancels l' who' => ¬ (l' = l ∧ who' = who)
  | .removes l' => l' ≠ l
  | .advances .. => true

/-- What was confirmed of a ledger over a log, one after the other. -/
def advancesOf (l : LedgerId) (log : List WatchEvent) : List EntryId :=
  log.filterMap (confirmed? l)

/-- From a place of the log on, the watcher was waiting whenever more was confirmed of the
ledger. -/
def Attended (l : LedgerId) (who : Watcher) (begun : Nat) (log : List WatchEvent) : Prop :=
  ∀ place c, begun ≤ place → log[place]? = some (.advances l c) →
    (standing (log.take place) l who).isSome = true

theorem not_mem_of_advancesOf (h : advancesOf l news = []) : .advances l after ∉ news := by
  intro hmem
  have hnone := List.filterMap_eq_nil_iff.mp h _ hmem
  simp [confirmed?] at hnone

/-- What happened before something else is attended as it was. -/
theorem attended_append_iff (log news : List WatchEvent) :
    Attended l who begun (log ++ news) ↔ Attended l who begun log ∧
      ∀ place c, begun ≤ log.length + place → news[place]? = some (.advances l c) →
        (standing (log ++ news.take place) l who).isSome = true := by
  unfold Attended
  constructor
  · intro h
    refine ⟨fun place c hplace hat => ?_, fun place c hplace hat => ?_⟩
    · have hlt := (List.getElem?_eq_some_iff.mp hat).1
      have hstands := h place c hplace (by rwa [List.getElem?_append_left hlt])
      rwa [List.take_append_of_le_length (Nat.le_of_lt hlt)] at hstands
    · have hstands := h (log.length + place) c hplace
        (by rwa [List.getElem?_append_right (Nat.le_add_right _ _), Nat.add_sub_cancel_left])
      rwa [List.take_length_add_append] at hstands
  · rintro ⟨hlog, hnews⟩ place c hplace hat
    rcases Nat.lt_or_ge place log.length with hlt | hge
    · rw [List.getElem?_append_left hlt] at hat
      rw [List.take_append_of_le_length (Nat.le_of_lt hlt)]
      exact hlog place c hplace hat
    · obtain ⟨later, rfl⟩ := Nat.exists_eq_add_of_le hge
      rw [List.getElem?_append_right hge, Nat.add_sub_cancel_left] at hat
      rw [List.take_length_add_append]
      exact hnews later c hplace hat

theorem attended_of_quiet (hnews : advancesOf l news = []) :
    Attended l who begun (log ++ news) ↔ Attended l who begun log := by
  rw [attended_append_iff]
  refine and_iff_left fun place c _ hat => ?_
  exact absurd (List.mem_of_getElem? hat) (not_mem_of_advancesOf hnews)

theorem attended_of_advance (l : LedgerId) (who : Watcher) (after : EntryId)
    (hbegun : begun ≤ log.length) : Attended l who begun (log ++ [.advances l after]) ↔
      Attended l who begun log ∧ (standing log l who).isSome = true := by
  rw [attended_append_iff]
  refine and_congr_right fun _ => ⟨fun h => ?_, fun h place c _ hat => ?_⟩
  · simpa using h 0 after hbegun rfl
  · obtain rfl : place = 0 := by
      have hlt := (List.getElem?_eq_some_iff.mp hat).1
      simpa using hlt
    simpa using h

end WatchEvent

open WatchEvent

/-- Whether a notice tells a watcher of a ledger. -/
def Issue.isTo (l : LedgerId) (who : Watcher) (issue : Issue) : Bool :=
  issue.notice.ledger = l && issue.notice.watcher = who

namespace Watching

variable {s s' : Watching} {l : LedgerId} {who : Watcher} {c : EntryId}

/-- What notices on the way to a watcher tell it of a ledger. -/
def coming (l : LedgerId) (who : Watcher) (s : Watching) : List EntryId :=
  (s.pending.filter (Issue.isTo l who)).map fun issue => issue.notice.confirmed

/-- Others take a step that leaves alone whether a watcher waits on a ledger and what it is
told of it. -/
structure Spares (l : LedgerId) (who : Watcher) (s s' : Watching) : Prop where
  told : s'.told.filter (Issue.isTo l who) = s.told.filter (Issue.isTo l who)
  log : ∃ news, s'.log = s.log ++ news ∧ ∀ e ∈ news, e.spares l who = true

/-- What a step of others comes to for a watcher of a ledger of which `c` was confirmed. -/
inductive Noticed (l : LedgerId) (who : Watcher) (c : EntryId) (s s' : Watching) : Prop where
  | nothing {news : List WatchEvent} (log : s'.log = s.log ++ news)
      (quiet : advancesOf l news = []) (confirmed : s'.store.confirmedOf? l = some c)
      (waiting : s'.store.waiting? l who = s.store.waiting? l who)
      (coming : s'.coming l who = s.coming l who)
  /-- More is confirmed. The watcher is to be told if it waited for that. -/
  | advance {after : EntryId} (lt : c < after) (log : s'.log = s.log ++ [.advances l after])
      (confirmed : s'.store.confirmedOf? l = some after)
      (waiting : s'.store.waiting? l who =
        (s.store.waiting? l who).filter fun known => !decide (known < after))
      (coming : s'.coming l who = s.coming l who ++
        if (s.store.waiting? l who).any fun known => known < after then [after] else [])

/-- A step of others logs one event at most. -/
theorem Spares.event (h : s.Spares l who s') {e : WatchEvent} (hlog : s'.log = s.log ++ [e]) :
    e.spares l who = true := by
  obtain ⟨news, hnews, hspares⟩ := h.log
  have hsame : news = [e] := List.append_cancel_left (hnews.symm.trans hlog)
  exact hspares e (by simp [hsame])

theorem coming_of_pending {new : List Issue} (hpending : s'.pending = s.pending ++ new) :
    s'.coming l who = s.coming l who ++
      (new.filter (Issue.isTo l who)).map fun issue => issue.notice.confirmed := by
  unfold coming
  rw [hpending, List.filter_append, List.map_append]

/-- Of the notices of an advance, one at most is for the watcher. -/
theorem coming_of_raises {store store' : Store} {after : EntryId} {notices : List Notice}
    (hraises : Store.Raises l after notices store store') (place : Nat) :
    ((notices.map (Issue.mk place)).filter (Issue.isTo l who)).map
        (fun issue => issue.notice.confirmed) =
      if (store.waiting? l who).any fun known => known < after then [after] else [] := by
  have hmem : ⟨who, l, after⟩ ∈ notices ↔
      ((store.waiting? l who).any fun known => known < after) = true := by
    rw [hraises.notices]
    simp [Option.any_eq_true]
  have hfilter : notices.filter (Issue.isTo l who ∘ Issue.mk place) =
      notices.filter fun notice => notice = ⟨who, l, after⟩ := by
    refine List.filter_congr fun notice hnotice => ?_
    obtain ⟨watcher, ledger, confirmed⟩ := notice
    obtain ⟨rfl, rfl, -⟩ := (hraises.notices _).mp hnotice
    simp [Issue.isTo]
  rw [List.filter_map, hfilter, List.filter_eq, hraises.once.count, List.map_map,
    List.map_replicate]
  by_cases hwaits : ((store.waiting? l who).any fun known => known < after) = true
  · rw [if_pos hwaits, if_pos (hmem.mpr hwaits)]
    rfl
  · rw [if_neg hwaits, if_neg (mt hmem.mp hwaits)]
    rfl

/-- None of the notices of an advance of another ledger is about this one. -/
theorem coming_of_raises_elsewhere {l' : LedgerId} {store store' : Store} {after : EntryId}
    {notices : List Notice} (hraises : Store.Raises l' after notices store store')
    (hne : l' ≠ l) (place : Nat) :
    (notices.map (Issue.mk place)).filter (Issue.isTo l who) = [] := by
  rw [List.filter_map, List.map_eq_nil_iff, List.filter_eq_nil_iff]
  intro notice hnotice hto
  have hledger := ((hraises.notices notice).mp hnotice).1
  simp [Issue.isTo, hledger, hne] at hto

/-- The watcher notices an entry that others store if it confirms more of the ledger. -/
theorem noticed_of_append (hc : s.store.confirmedOf? l = some c) {entry : Bytes}
    {header : Entry.Header} {id : EntryId} {notices : List Notice} {store : Store}
    (named : Entry.readHeader entry = .ok header)
    (hact : Store.append entry s.store = .ok ((id, notices), store)) :
    Noticed l who c s { s with
      store
      log := s.log ++ advance header.ledger s.store store
      pending := s.pending ++ notices.map (Issue.mk s.log.length) } := by
  obtain ⟨header', hheader, hcases⟩ := Store.append_cases hact
  cases named.symm.trans hheader
  rcases hcases with ⟨rfl, hsame, hconfirmed⟩ | ⟨after, hraises⟩
  · rw [advance_of_eq hconfirmed]
    exact .nothing rfl rfl (hsame.confirmed hc) (hsame.waiting l who)
      ((coming_of_pending rfl).trans (List.append_nil _))
  · rw [advance_of_raises hraises]
    by_cases hledger : header.ledger = l
    · obtain rfl := hledger
      obtain ⟨before, hbefore, hlt⟩ := hraises.before
      obtain rfl := Option.some.inj (hbefore.symm.trans hc)
      refine .advance hlt rfl ?_ ?_ ?_
      · exact (hraises.confirmed _).trans (if_pos rfl)
      · exact (hraises.waiting _ _).trans (if_pos rfl)
      · exact (coming_of_pending rfl).trans (congrArg _ (coming_of_raises hraises _))
    · refine .nothing rfl (by simp [advancesOf, confirmed?, hledger]) ?_ ?_ ?_
      · exact (hraises.confirmed l).trans ((if_neg hledger).trans hc)
      · exact (hraises.waiting l who).trans (if_neg hledger)
      · refine (coming_of_pending rfl).trans ?_
        rw [coming_of_raises_elsewhere hraises hledger, List.map_nil, List.append_nil]

/-- Others take a step, which concerns the watcher only if it confirms more of the ledger. -/
theorem Step.noticed (hstep : s.Step s') (hspares : s.Spares l who s')
    (hc : s.store.confirmedOf? l = some c) : Noticed l who c s s' := by
  cases hstep with
  | @watch l' known who' waits store hact =>
      obtain ⟨-, -, ⟨rfl, -, rfl⟩ | ⟨rfl, -, hconfirmed, hwaiting⟩⟩ := Store.watch_spec hact
      · exact .nothing rfl rfl hc rfl rfl
      · have hother : ¬ (l' = l ∧ who' = who) := of_decide_eq_true (hspares.event rfl)
        exact .nothing rfl rfl ((hconfirmed l).trans hc)
          ((hwaiting l who).trans (if_neg hother)) rfl
  | @unwatch l' who' store hact =>
      obtain ⟨hconfirmed, hwaiting⟩ := Store.unwatch_spec hact
      have hother : ¬ (l' = l ∧ who' = who) := of_decide_eq_true (hspares.event rfl)
      exact .nothing rfl rfl ((hconfirmed l).trans hc) ((hwaiting l who).trans (if_neg hother)) rfl
  | append named hact => exact noticed_of_append hc named hact
  | remove hact =>
      obtain ⟨hremoves, -⟩ := Store.remove_spec hact
      have hother := of_decide_eq_true (hspares.event rfl)
      exact .nothing rfl rfl ((hremoves.confirmedOf? l).trans ((if_neg hother).trans hc))
        ((hremoves.waiting? l who).trans (if_neg hother)) rfl
  | @tell before after issue hpending =>
      -- somebody else is told, so what is coming to the watcher is the same
      have hother : issue.isTo l who = false := by
        have htold := hspares.told
        simpa [List.filter_append] using htold
      refine .nothing (List.append_nil _).symm rfl hc rfl ?_
      simp [coming, hpending, List.filter_append, hother]
  | elsewhere hsame =>
      exact .nothing (List.append_nil _).symm rfl (hsame.confirmed hc) (hsame.waiting l who) rfl

end Watching

/-- What a follower of a ledger and the others came to. -/
structure Following where
  watching : Watching
  /-- What the follower was told of last, if it has not waited again since. -/
  due : Option EntryId
  /-- What the follower was told of and how its next wait was answered, oldest first. -/
  heard : List (EntryId × Except StoreError Bool)

namespace Following

variable {l : LedgerId} {who : Watcher} {s s' : Following} {prev first c : EntryId} {begun : Nat}

/-- Nothing was heard so far. -/
def begin (s : Watching) : Following := ⟨s, none, []⟩

/-- What was told and not waited upon again, or is on its way. -/
def unanswered (l : LedgerId) (who : Watcher) (s : Following) : List EntryId :=
  s.due.toList ++ s.watching.coming l who

/-- What the follower was told of or is about to be, in order. -/
def tidings (l : LedgerId) (who : Watcher) (s : Following) : List EntryId :=
  s.heard.map Prod.fst ++ s.unanswered l who

/-- The advances of the ledger from a place of the log on. -/
def advances (l : LedgerId) (begun : Nat) (s : Following) : List EntryId :=
  advancesOf l (s.watching.log.drop begun)

/-- The follower is told of an advance that was on its way. -/
def tell (s : Following) (l : LedgerId) (who : Watcher) (before after : List Issue) (place : Nat)
    (c : EntryId) : Following :=
  { s with
    watching.pending := before ++ after
    watching.told := s.watching.told ++ [⟨place, who, l, c⟩]
    due := some c }

/-- The follower waits for more than it was told of, and makes a note of the answer. -/
def waitAgain (l : LedgerId) (who : Watcher) (c : EntryId) (s : Following) : Following :=
  match Store.watch l c who s.watching.store with
  | .error e => ⟨s.watching, none, s.heard ++ [(c, .error e)]⟩
  | .ok (granted, store) =>
      ⟨{ s.watching with
          store
          log := s.watching.log ++ if granted then [.waits l c who] else [] },
        none, s.heard ++ [(c, .ok granted)]⟩

/-- What may happen next. -/
inductive Step (l : LedgerId) (who : Watcher) (s : Following) : Following → Prop where
  | others {watching : Watching} (h : s.watching.Step watching)
      (hspares : s.watching.Spares l who watching) : Step l who s { s with watching }
  /-- The follower is told. -/
  | told {before after : List Issue} {place : Nat} {c : EntryId}
      (h : s.watching.pending = before ++ ⟨place, who, l, c⟩ :: after) :
      Step l who s (s.tell l who before after place c)
  /-- The follower waits again, and does nothing else before that. -/
  | waits {c : EntryId} (hdue : s.due = some c) : Step l who s (s.waitAgain l who c)

/-- What can come of any number of steps. -/
abbrev Leads (l : LedgerId) (who : Watcher) : Following → Following → Prop :=
  Relation.ReflTransGen (Step l who)

/-- A wait for more than `prev` is granted, with no notice for an earlier one on the way. -/
structure Begins (l : LedgerId) (who : Watcher) (prev : EntryId) (earlier s : Watching) :
    Prop where
  reachable : Watching.Reachable earlier
  granted : ∃ store, Store.watch l prev who earlier.store = .ok (true, store) ∧
    s = { earlier with store, log := earlier.log ++ [.waits l prev who] }
  quiet : earlier.coming l who = []

/-- What a follower hears of a ledger who waited for more than `prev` at first. -/
structure HearsAll (l : LedgerId) (who : Watcher) (prev : EntryId) (begun : Nat)
    (start : Store) (s : Following) : Prop where
  /-- It was told, or is about to be, of just the advances beyond that, in their order. -/
  heard : s.heard.map Prod.fst ++ s.due.toList ++ s.watching.coming l who =
    (s.advances l begun).filter fun c => prev < c
  /-- At most one of them is on the way. -/
  behind : (s.due.toList ++ s.watching.coming l who).length ≤ 1
  /-- The advances are what was confirmed of the ledger, later and later. -/
  confirmed : ∀ c, start.confirmedOf? l = some c →
    (c :: s.advances l begun).Pairwise (· < ·) ∧
      s.watching.store.confirmedOf? l = some ((s.advances l begun).getLastD c)
  granted : ∀ told ∈ s.heard, told.2 = .ok true
  /-- Nobody is told twice of an advance. -/
  once : s.watching.issued.Nodup ∧ ∀ issue ∈ s.watching.issued, ∀ issue' ∈ s.watching.issued,
    issue.place = issue'.place → issue.notice.watcher = issue'.notice.watcher → issue = issue'
  /-- An entry is to be told to no more than those who wait when it is stored. -/
  ends : ∀ entry id notices store,
    Store.append entry s.watching.store = .ok ((id, notices), store) → notices.Nodup ∧
      ∀ notice ∈ notices,
        (s.watching.store.waiting? notice.ledger notice.watcher).isSome = true

/-! ### A follower who keeps up -/

/-- Where a follower is who waited for more than `prev` at first, when `c` is confirmed: it
waits for more than that, or it was told of that and is to wait again, or is about to be. -/
structure Keeps (l : LedgerId) (who : Watcher) (prev : EntryId) (begun : Nat) (first : EntryId)
    (c : EntryId) (s : Following) : Prop where
  sound : s.watching.Sound
  begun_le : begun ≤ s.watching.log.length
  confirmed : s.watching.store.confirmedOf? l = some c
  last : (s.advances l begun).getLastD first = c
  ascending : (first :: s.advances l begun).Pairwise (· < ·)
  behind : ∀ v ∈ first :: s.advances l begun, ¬ c < v
  tidings : s.tidings l who = (s.advances l begun).filter fun c => prev < c
  granted : ∀ told ∈ s.heard, told.2 = .ok true
  turn : s.unanswered l who = [] ∧ s.watching.store.waiting? l who = some (prev.max c) ∨
    s.unanswered l who = [c] ∧ s.watching.store.waiting? l who = none ∧ prev < c

/-- Where a follower is that more was confirmed without, when `c` is confirmed: it does not
wait, and what it was told of is not up to date. -/
structure Lost (l : LedgerId) (who : Watcher) (prev : EntryId) (begun : Nat) (c : EntryId)
    (s : Following) : Prop where
  sound : s.watching.Sound
  begun_le : begun ≤ s.watching.log.length
  confirmed : s.watching.store.confirmedOf? l = some c
  late : ∀ v ∈ s.unanswered l who, v < c
  waiting : s.watching.store.waiting? l who = none
  known : prev < c
  short : (s.tidings l who).length < ((s.advances l begun).filter fun c => prev < c).length

theorem advances_of_log {news : List WatchEvent} (hbegun : begun ≤ s.watching.log.length)
    (hlog : s'.watching.log = s.watching.log ++ news) :
    s'.advances l begun = s.advances l begun ++ advancesOf l news := by
  unfold advances advancesOf
  rw [hlog, List.drop_append_of_le_length hbegun, List.filterMap_append]

theorem begun_le_of_log {news : List WatchEvent} (hbegun : begun ≤ s.watching.log.length)
    (hlog : s'.watching.log = s.watching.log ++ news) : begun ≤ s'.watching.log.length := by
  rw [hlog, List.length_append]
  exact Nat.le_add_right_of_le hbegun

/-- Nothing that concerns the follower happened. -/
theorem Keeps.unmoved (h : Keeps l who prev begun first c s) (hsound : s'.watching.Sound)
    {news : List WatchEvent} (hlog : s'.watching.log = s.watching.log ++ news)
    (hquiet : advancesOf l news = []) (htidings : s'.tidings l who = s.tidings l who)
    (hunanswered : s'.unanswered l who = s.unanswered l who)
    (hgranted : ∀ told ∈ s'.heard, told.2 = .ok true)
    (hconfirmed : s'.watching.store.confirmedOf? l = some c)
    (hwaiting : s'.watching.store.waiting? l who = s.watching.store.waiting? l who) :
    Keeps l who prev begun first c s' := by
  have hadvances : s'.advances l begun = s.advances l begun := by
    rw [advances_of_log h.begun_le hlog, hquiet, List.append_nil]
  constructor
  case sound => exact hsound
  case begun_le => exact begun_le_of_log h.begun_le hlog
  case confirmed => exact hconfirmed
  case last => rw [hadvances, h.last]
  case ascending => rw [hadvances]; exact h.ascending
  case behind => rw [hadvances]; exact h.behind
  case tidings => rw [hadvances, htidings, h.tidings]
  case granted => exact hgranted
  case turn => rw [hunanswered, hwaiting]; exact h.turn

/-- More is confirmed while the follower waits. It is to be told if that is more than it knew
of at first. -/
theorem Keeps.raised (h : Keeps l who prev begun first c s) (hsound : s'.watching.Sound)
    {known after : EntryId} (hwaits : s.watching.store.waiting? l who = some known)
    (hlt : c < after) (hlog : s'.watching.log = s.watching.log ++ [.advances l after])
    (hheard : s'.heard = s.heard)
    (hunanswered : s'.unanswered l who =
      s.unanswered l who ++ if known < after then [after] else [])
    (hconfirmed : s'.watching.store.confirmedOf? l = some after)
    (hwaiting : s'.watching.store.waiting? l who = if known < after then none else some known) :
    Keeps l who prev begun first after s' := by
  -- who waits has answered all that it was told
  obtain ⟨hnone, hknown⟩ : s.unanswered l who = [] ∧ known = prev.max c := by
    rcases h.turn with ⟨hnone, hstands⟩ | ⟨-, hgone, -⟩
    · exact ⟨hnone, Option.some.inj (hwaits.symm.trans hstands)⟩
    · cases hwaits.symm.trans hgone
  -- more is confirmed anyhow, so being told depends on what was known at first
  have hbeyond : known < after ↔ prev < after := by
    rw [hknown, EntryId.max_lt_iff]
    exact and_iff_left hlt
  simp only [hbeyond] at hunanswered hwaiting
  have hadvances : s'.advances l begun = s.advances l begun ++ [after] := by
    rw [advances_of_log h.begun_le hlog]
    simp [advancesOf, confirmed?]
  -- what is confirmed now is beyond all advances before
  have hbefore : ∀ v ∈ first :: s.advances l begun, v < after := fun v hv =>
    EntryId.lt_of_le_of_lt (EntryId.le_of_not_lt (h.behind v hv)) hlt
  constructor
  case sound => exact hsound
  case begun_le => exact begun_le_of_log h.begun_le hlog
  case confirmed => exact hconfirmed
  case last => rw [hadvances, List.getLastD_concat]
  case ascending =>
    rw [hadvances, ← List.cons_append, List.pairwise_append]
    refine ⟨h.ascending, List.pairwise_singleton _ _, fun v hv v' hv' => ?_⟩
    rw [List.mem_singleton.mp hv']
    exact hbefore v hv
  case behind =>
    intro v hv
    rw [hadvances, ← List.cons_append, List.mem_append, List.mem_singleton] at hv
    rcases hv with hv | rfl
    · exact Int64.lt_asymm (hbefore v hv)
    · exact EntryId.not_lt_self v
  case tidings =>
    unfold Following.tidings
    rw [hadvances, hheard, hunanswered, List.filter_append, ← h.tidings, ← List.append_assoc]
    by_cases hprev : prev < after <;> simp [Following.tidings, hprev]
  case granted => rw [hheard]; exact h.granted
  case turn =>
    rw [hunanswered, hwaiting, hnone, List.nil_append]
    by_cases hprev : prev < after
    · rw [if_pos hprev, if_pos hprev]
      exact Or.inr ⟨rfl, rfl, hprev⟩
    · have hle : ¬ prev < c := fun hpc => hprev (Int64.lt_trans hpc hlt)
      rw [if_neg hprev, if_neg hprev, hknown, EntryId.max_of_not_lt hle,
        EntryId.max_of_not_lt hprev]
      exact Or.inl ⟨rfl, rfl⟩

/-- More is confirmed while the follower does not wait, and from then on it is lost. -/
theorem Keeps.missed (h : Keeps l who prev begun first c s) (hsound : s'.watching.Sound)
    {after : EntryId} (hgone : s.watching.store.waiting? l who = none) (hlt : c < after)
    (hlog : s'.watching.log = s.watching.log ++ [.advances l after])
    (htidings : s'.tidings l who = s.tidings l who)
    (hunanswered : s'.unanswered l who = s.unanswered l who)
    (hconfirmed : s'.watching.store.confirmedOf? l = some after)
    (hwaiting : s'.watching.store.waiting? l who = none) : Lost l who prev begun after s' := by
  obtain ⟨hone, hbeyond⟩ : s.unanswered l who = [c] ∧ prev < c := by
    rcases h.turn with ⟨-, hstands⟩ | ⟨hone, -, hbeyond⟩
    · cases hgone.symm.trans hstands
    · exact ⟨hone, hbeyond⟩
  have hadvances : s'.advances l begun = s.advances l begun ++ [after] := by
    rw [advances_of_log h.begun_le hlog]
    simp [advancesOf, confirmed?]
  have hprev : prev < after := Int64.lt_trans hbeyond hlt
  constructor
  case sound => exact hsound
  case begun_le => exact begun_le_of_log h.begun_le hlog
  case confirmed => exact hconfirmed
  case late =>
    rw [hunanswered, hone]
    exact fun v hv => List.mem_singleton.mp hv ▸ hlt
  case waiting => exact hwaiting
  case known => exact hprev
  case short => simp [htidings, h.tidings, hadvances, List.filter_append, hprev]

/-- A follower who is lost is not told of any more. -/
theorem Lost.stays (h : Lost l who prev begun c s) (hsound : s'.watching.Sound)
    {news : List WatchEvent} {after : EntryId} (hle : ¬ after < c)
    (hlog : s'.watching.log = s.watching.log ++ news)
    (htidings : (s'.tidings l who).length ≤ (s.tidings l who).length)
    (hunanswered : s'.unanswered l who ⊆ s.unanswered l who)
    (hconfirmed : s'.watching.store.confirmedOf? l = some after)
    (hwaiting : s'.watching.store.waiting? l who = none) : Lost l who prev begun after s' where
  sound := hsound
  begun_le := begun_le_of_log h.begun_le hlog
  confirmed := hconfirmed
  late v hv := EntryId.lt_of_lt_of_le (h.late v (hunanswered hv)) (EntryId.le_of_not_lt hle)
  waiting := hwaiting
  known := EntryId.lt_of_lt_of_le h.known (EntryId.le_of_not_lt hle)
  short := by
    rw [advances_of_log h.begun_le hlog, List.filter_append, List.length_append]
    exact Nat.lt_of_le_of_lt htidings (Nat.lt_add_right _ h.short)

/-! ### Steps of the follower -/

section Told

variable {before after : List Issue} {place : Nat} {c' : EntryId}

/-- What the follower is told of was on its way. -/
theorem coming_of_told (hpending : s.watching.pending = before ++ ⟨place, who, l, c'⟩ :: after) :
    s.watching.coming l who = (before.filter (Issue.isTo l who)).map
        (fun issue => issue.notice.confirmed) ++
      c' :: (after.filter (Issue.isTo l who)).map fun issue => issue.notice.confirmed := by
  simp [Watching.coming, hpending, Issue.isTo]

theorem unanswered_tell (s : Following) :
    (s.tell l who before after place c').unanswered l who =
      c' :: ((before.filter (Issue.isTo l who)).map (fun issue => issue.notice.confirmed) ++
        (after.filter (Issue.isTo l who)).map fun issue => issue.notice.confirmed) := by
  simp [unanswered, tell, Watching.coming]

/-- The follower is told of what is confirmed, as nothing else is on its way. -/
theorem Keeps.tell (h : Keeps l who prev begun first c s)
    (hpending : s.watching.pending = before ++ ⟨place, who, l, c'⟩ :: after) :
    Keeps l who prev begun first c (s.tell l who before after place c') := by
  have hcoming := coming_of_told hpending
  have hone : s.unanswered l who = [c] := by
    rcases h.turn with ⟨hnone, -⟩ | ⟨hone, -⟩
    · simp [unanswered, hcoming] at hnone
    · exact hone
  have hsame : (s.tell l who before after place c').unanswered l who = s.unanswered l who := by
    obtain ⟨-, hbefore, rfl, hafter⟩ : s.due = none ∧
        (∀ issue ∈ before, issue.isTo l who = false) ∧ c' = c ∧
        ∀ issue ∈ after, issue.isTo l who = false := by
      simpa [unanswered, hcoming, List.append_eq_singleton_iff, and_assoc] using hone
    rw [unanswered_tell, hone]
    simpa using And.intro hbefore hafter
  refine h.unmoved (h.sound.tell hpending) (List.append_nil _).symm rfl ?_ hsame h.granted
    h.confirmed rfl
  exact congrArg (s.heard.map Prod.fst ++ ·) hsame

/-- Being told does not help a follower who was left behind: what it is told is out of date. -/
theorem Lost.tell (h : Lost l who prev begun c s)
    (hpending : s.watching.pending = before ++ ⟨place, who, l, c'⟩ :: after) :
    Lost l who prev begun c (s.tell l who before after place c') := by
  have hcoming := coming_of_told hpending
  refine h.stays (h.sound.tell hpending) (EntryId.not_lt_self c) (List.append_nil _).symm ?_ ?_
    h.confirmed h.waiting
  · unfold tidings
    rw [unanswered_tell]
    simp [Following.tell, unanswered, hcoming]
    omega
  · rw [unanswered_tell, unanswered, hcoming]
    intro v hv
    simp only [List.mem_cons, List.mem_append] at hv ⊢
    tauto

end Told

/-- Whoever waits on a ledger that is there is answered. -/
theorem exists_watch {store : Store} (hc : store.confirmedOf? l = some c) (known : EntryId)
    (who : Watcher) : ∃ granted store', Store.watch l known who store = .ok (granted, store') := by
  obtain ⟨x, hx, rfl⟩ := Option.map_eq_some_iff.mp hc
  unfold Store.watch Store.change
  rw [hx]
  exact ⟨_, _, rfl⟩

/-- The wait of a follower who keeps up is granted. -/
theorem Keeps.waitAgain (h : Keeps l who prev begun first c s) {c' : EntryId}
    (hdue : s.due = some c') : Keeps l who prev begun first c (s.waitAgain l who c') := by
  -- the advance that is due is the last one, and nothing else is coming
  obtain ⟨rfl, hcoming, hlt⟩ : c' = c ∧ s.watching.coming l who = [] ∧ prev < c := by
    rcases h.turn with ⟨hnone, -⟩ | ⟨hone, -, hlt⟩
    · simp [unanswered, hdue] at hnone
    · rw [unanswered, hdue] at hone
      obtain ⟨rfl, hcoming⟩ := List.cons_eq_cons.mp hone
      exact ⟨rfl, hcoming, hlt⟩
  obtain ⟨granted, store, hwatch⟩ := exists_watch h.confirmed c' who
  have hsound := h.sound.watch hwatch
  obtain ⟨v, hv, ⟨-, hbehind, -⟩ | ⟨rfl, -, hconfirmed, hwaiting⟩⟩ := Store.watch_spec hwatch
  · -- a refusal would mean that more was confirmed meanwhile
    obtain rfl := Option.some.inj (h.confirmed.symm.trans hv)
    exact absurd hbehind (EntryId.not_lt_self c')
  unfold Following.waitAgain
  rw [hwatch]
  have hadvances : advances l begun ⟨{ s.watching with
      store, log := s.watching.log ++ [.waits l c' who] }, none,
      s.heard ++ [(c', .ok true)]⟩ = s.advances l begun :=
    (advances_of_log h.begun_le rfl).trans (List.append_nil _)
  constructor
  case sound => exact hsound
  case begun_le => exact begun_le_of_log h.begun_le rfl
  case confirmed => exact (hconfirmed l).trans h.confirmed
  case last => exact (congrArg (·.getLastD first) hadvances).trans h.last
  case ascending => exact hadvances ▸ h.ascending
  case behind => exact hadvances ▸ h.behind
  case tidings =>
    refine Eq.trans ?_ (h.tidings.trans (congrArg _ hadvances.symm))
    simp [Following.tidings, unanswered, hdue, Watching.coming]
  case granted =>
    intro told htold
    rcases List.mem_append.mp htold with hbefore | hlast
    · exact h.granted told hbefore
    · rw [List.mem_singleton.mp hlast]
  case turn =>
    refine Or.inl ⟨hcoming, (hwaiting l who).trans ?_⟩
    rw [if_pos ⟨rfl, rfl⟩, EntryId.max_of_lt hlt]

/-- The wait of a follower who is lost is refused. -/
theorem Lost.waitAgain (h : Lost l who prev begun c s) {c' : EntryId} (hdue : s.due = some c') :
    Lost l who prev begun c (s.waitAgain l who c') := by
  have hlate : c' < c := h.late c' (by simp [unanswered, hdue])
  obtain ⟨granted, store, hwatch⟩ := exists_watch h.confirmed c' who
  have hsound := h.sound.watch hwatch
  obtain ⟨v, hv, ⟨rfl, -, rfl⟩ | ⟨-, hle, -⟩⟩ := Store.watch_spec hwatch
  · unfold Following.waitAgain
    rw [hwatch]
    refine h.stays hsound (EntryId.not_lt_self c) rfl ?_ ?_ h.confirmed h.waiting
    · simp [tidings, unanswered, hdue, Watching.coming]
    · exact List.subset_append_right s.due.toList _
  · obtain rfl := Option.some.inj (h.confirmed.symm.trans hv)
    exact absurd hlate hle

/-! ### Runs -/

/-- A follower keeps up as long as it is waiting whenever more is confirmed. -/
inductive Course (l : LedgerId) (who : Watcher) (prev : EntryId) (begun : Nat) (first : EntryId)
    (s : Following) : Prop where
  | keeps {c : EntryId} (h : Keeps l who prev begun first c s)
      (attended : Attended l who begun s.watching.log)
  | lost {c : EntryId} (h : Lost l who prev begun c s)
      (unattended : ¬ Attended l who begun s.watching.log)

theorem tidings_of_unanswered (hheard : s'.heard = s.heard)
    (hunanswered : s'.unanswered l who = s.unanswered l who) :
    s'.tidings l who = s.tidings l who := by
  unfold tidings
  rw [hheard, hunanswered]

/-- A step of others, which finds a follower waiting or between two waits. -/
theorem Keeps.others (h : Keeps l who prev begun first c s) {watching : Watching}
    (hsound : watching.Sound) (hnoticed : s.watching.Noticed l who c watching)
    (attended : Attended l who begun s.watching.log) :
    Course l who prev begun first { s with watching } := by
  cases hnoticed with
  | nothing log quiet confirmed waiting coming =>
      have hunanswered := congrArg (s.due.toList ++ ·) coming
      exact .keeps (h.unmoved hsound log quiet (tidings_of_unanswered rfl hunanswered) hunanswered
        h.granted confirmed waiting) (log ▸ (attended_of_quiet quiet).mpr attended)
  | @advance after lt log confirmed waiting coming =>
      have hiff := attended_of_advance l who after h.begun_le
      have hunanswered := congrArg (s.due.toList ++ ·) coming
      rw [← log, ← h.sound.waiting] at hiff
      cases hwaits : s.watching.store.waiting? l who with
      | some known =>
          rw [hwaits] at hiff waiting hunanswered
          refine .keeps (h.raised hsound hwaits lt log rfl ?_ confirmed ?_)
            (hiff.mpr ⟨attended, rfl⟩)
          · refine hunanswered.trans ?_
            by_cases hlt : known < after <;> simp [unanswered, hlt]
          · refine waiting.trans ?_
            by_cases hlt : known < after <;> simp [Option.filter, hlt]
      | none =>
          rw [hwaits] at hiff waiting hunanswered
          have hsame : unanswered l who { s with watching } = s.unanswered l who :=
            hunanswered.trans (congrArg (s.due.toList ++ ·) (List.append_nil _))
          exact .lost (h.missed hsound hwaits lt log (tidings_of_unanswered rfl hsame) hsame
            confirmed waiting) fun hall => Bool.noConfusion (hiff.mp hall).2

/-- Others may confirm even more, and leave the follower where it is. -/
theorem Lost.others (h : Lost l who prev begun c s) {watching : Watching}
    (hsound : watching.Sound) (hnoticed : s.watching.Noticed l who c watching) :
    ∃ c', Lost l who prev begun c' { s with watching } := by
  have hcoming : ∀ {coming}, watching.coming l who = s.watching.coming l who ++ coming →
      coming = [] → unanswered l who { s with watching } = s.unanswered l who := by
    rintro _ hsame rfl
    exact congrArg (s.due.toList ++ ·) (hsame.trans (List.append_nil _))
  cases hnoticed with
  | nothing log quiet confirmed waiting coming =>
      have hsame := hcoming (coming.trans (List.append_nil _).symm) rfl
      refine ⟨c, h.stays hsound (EntryId.not_lt_self c) log ?_ (fun _ hv => hsame ▸ hv) confirmed
        (waiting.trans h.waiting)⟩
      exact Nat.le_of_eq (congrArg List.length (tidings_of_unanswered rfl hsame))
  | @advance after lt log confirmed waiting coming =>
      rw [h.waiting] at waiting coming
      have hsame := hcoming coming rfl
      refine ⟨after, h.stays hsound (Int64.lt_asymm lt) log ?_ (fun _ hv => hsame ▸ hv) confirmed
        waiting⟩
      exact Nat.le_of_eq (congrArg List.length (tidings_of_unanswered rfl hsame))

/-- What is unattended once remains so. -/
theorem Step.unattended (hstep : Step l who s s')
    (h : ¬ Attended l who begun s.watching.log) : ¬ Attended l who begun s'.watching.log := by
  have hgrows : ∃ news, s'.watching.log = s.watching.log ++ news := by
    cases hstep with
    | others _ hspares =>
        obtain ⟨news, hlog, -⟩ := hspares.log
        exact ⟨news, hlog⟩
    | told => exact ⟨[], (List.append_nil _).symm⟩
    | waits =>
        unfold waitAgain
        split
        next => exact ⟨[], (List.append_nil _).symm⟩
        next => exact ⟨_, rfl⟩
  obtain ⟨news, hlog⟩ := hgrows
  rw [hlog, attended_append_iff]
  exact fun hall => h hall.1

/-- Waiting again is attended by nature: it confirms nothing. -/
theorem attended_waitAgain (s : Following) (c : EntryId)
    (h : Attended l who begun s.watching.log) :
    Attended l who begun (s.waitAgain l who c).watching.log := by
  unfold waitAgain
  split
  next => exact h
  next granted store _ =>
    refine (attended_of_quiet ?_).mpr h
    cases granted <;> rfl

/-- A follower that keeps up does so until more is confirmed in its absence. Then it is
lost. -/
theorem Course.step (h : Course l who prev begun first s) (hstep : Step l who s s') :
    Course l who prev begun first s' := by
  cases h with
  | keeps h attended =>
      cases hstep with
      | others hstep hspares =>
          exact h.others (h.sound.step hstep) (hstep.noticed hspares h.confirmed) attended
      | told hpending => exact .keeps (h.tell hpending) attended
      | waits hdue => exact .keeps (h.waitAgain hdue) (attended_waitAgain s _ attended)
  | lost h unattended =>
      have hunattended := hstep.unattended unattended
      cases hstep with
      | others hstep hspares =>
          obtain ⟨c', hlost⟩ :=
            h.others (h.sound.step hstep) (hstep.noticed hspares h.confirmed)
          exact .lost hlost hunattended
      | told hpending => exact .lost (h.tell hpending) hunattended
      | waits hdue => exact .lost (h.waitAgain hdue) hunattended

theorem Course.leads (h : Course l who prev begun first s) (hleads : Leads l who s s') :
    Course l who prev begun first s' := by
  induction hleads with
  | refl => exact h
  | tail _ hstep ih => exact ih.step hstep

/-- A wait that is granted finds the follower up to date. -/
theorem Begins.keeps {earlier start : Watching} (h : Begins l who prev earlier start) :
    ∃ c, Keeps l who prev start.log.length c c (begin start) := by
  obtain ⟨store, hwatch, rfl⟩ := h.granted
  obtain ⟨c, hc, ⟨hfalse, -⟩ | ⟨-, hle, hconfirmed, hwaiting⟩⟩ := Store.watch_spec hwatch
  · cases hfalse
  refine ⟨c, ?_⟩
  have hnone : ∀ w : Watching, (begin w).advances l w.log.length = [] := fun w => by
    unfold advances begin
    rw [List.drop_length]
    rfl
  constructor
  case sound => exact h.reachable.sound.watch hwatch
  case begun_le => exact Nat.le_refl _
  case confirmed => exact (hconfirmed l).trans hc
  case last => rw [hnone]; rfl
  case ascending => rw [hnone]; exact List.pairwise_singleton _ _
  case behind =>
    rw [hnone]
    exact fun v hv => List.mem_singleton.mp hv ▸ EntryId.not_lt_self c
  case tidings => rw [hnone]; exact h.quiet
  case granted => exact fun told htold => absurd htold List.not_mem_nil
  case turn =>
    refine Or.inl ⟨h.quiet, (hwaiting l who).trans ?_⟩
    rw [if_pos ⟨rfl, rfl⟩, EntryId.max_of_not_lt hle]

/-- Nobody is told twice of the advance at a place of the log. -/
theorem eq_of_issued {w : Watching} (h : w.Sound) {issue issue' : Issue}
    (hissue : issue ∈ w.issued) (hissue' : issue' ∈ w.issued)
    (hplace : issue.place = issue'.place)
    (hwho : issue.notice.watcher = issue'.notice.watcher) : issue = issue' := by
  obtain ⟨hat, -⟩ := (h.issued issue).mp hissue
  obtain ⟨hat', -⟩ := (h.issued issue').mp hissue'
  obtain ⟨place, watcher, ledger, confirmed⟩ := issue
  obtain ⟨place', watcher', ledger', confirmed'⟩ := issue'
  dsimp only at hplace hwho hat hat'
  subst hplace hwho
  cases hat.symm.trans hat'
  rfl

/-- Whoever is to be told of an entry waited when it was stored. -/
theorem notices_of_append {store store' : Store} {entry : Bytes} {id : EntryId}
    {notices : List Notice} (h : Store.append entry store = .ok ((id, notices), store')) :
    notices.Nodup ∧
      ∀ notice ∈ notices, (store.waiting? notice.ledger notice.watcher).isSome = true := by
  obtain ⟨header, -, ⟨rfl, -, -⟩ | ⟨after, hraises⟩⟩ := Store.append_cases h
  · exact ⟨List.nodup_nil, fun notice hnotice => absurd hnotice List.not_mem_nil⟩
  · refine ⟨hraises.once, fun notice hnotice => ?_⟩
    obtain ⟨hledger, -, known, hwaits, -⟩ := (hraises.notices notice).mp hnotice
    rw [hledger, hwaits]
    rfl

/-- A follower that keeps up has heard all. -/
theorem Keeps.hearsAll {store : Store} (h : Keeps l who prev begun first c s)
    (hfirst : store.confirmedOf? l = some first) : HearsAll l who prev begun store s where
  heard := (List.append_assoc _ _ _).trans h.tidings
  behind := by
    change (s.unanswered l who).length ≤ 1
    rcases h.turn with ⟨hnone, -⟩ | ⟨hone, -⟩
    · rw [hnone]
      exact Nat.zero_le 1
    · rw [hone]
      exact Nat.le_refl 1
  confirmed c' hc' := by
    obtain rfl := Option.some.inj (hfirst.symm.trans hc')
    exact ⟨h.ascending, h.confirmed.trans (congrArg some h.last.symm)⟩
  granted := h.granted
  once := ⟨h.sound.once, fun _ hissue _ hissue' => eq_of_issued h.sound hissue hissue'⟩
  ends _ _ _ _ := notices_of_append

theorem Lost.not_hearsAll {store : Store} (h : Lost l who prev begun c s) :
    ¬ HearsAll l who prev begun store s := by
  intro hall
  have hheard := (List.append_assoc _ _ _).symm.trans hall.heard
  exact Nat.lt_irrefl _ (congrArg List.length hheard ▸ h.short)

/-- A follower hears of every advance exactly if it is waiting whenever more is confirmed. -/
theorem hearsAll_iff_attended {earlier start : Watching} (h : Begins l who prev earlier start)
    (hleads : Leads l who (begin start) s) :
    HearsAll l who prev start.log.length start.store s ↔
      Attended l who start.log.length s.watching.log := by
  obtain ⟨c, hkeeps⟩ := h.keeps
  have hattended : Attended l who start.log.length start.log := by
    intro place c hplace hat
    exact absurd (List.getElem?_eq_some_iff.mp hat).1 (Nat.not_lt_of_le hplace)
  cases (Course.keeps hkeeps hattended).leads hleads with
  | keeps h attended => exact iff_of_true (h.hearsAll hkeeps.confirmed) attended
  | lost h unattended => exact iff_of_false h.not_hearsAll unattended

end Following

end FencedLedger
