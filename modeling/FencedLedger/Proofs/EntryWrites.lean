import FencedLedger.Proofs.ToldWatchers
import FencedLedger.Proofs.WriteOnceLog

/-!
# Submitting an entry through a handle

Two layers look at an entry. The handle reads the ledger off its first word and asks the store
only when that is the handle's own; the store reads both words, and then looks for the ledger
and for the id. What is answered is the first obstacle in that order, and nothing has happened
then. An entry that meets none is stored under its id, may confirm more, and wakes those whom
that concerns. An entry that is submitted to the store itself meets the obstacles of the store
only.
-/

namespace FencedLedger

/-- The first of some obstacles that is there. -/
def firstObstacle {ε : Type} (obstacles : List (Bool × ε)) : Option ε :=
  (obstacles.find? Prod.fst).map Prod.snd

section

variable {ε ε' : Type}

theorem firstObstacle_cons (there : Bool) (cause : ε) (rest : List (Bool × ε)) :
    firstObstacle ((there, cause) :: rest) = if there then some cause else firstObstacle rest := by
  cases there <;> rfl

theorem firstObstacle_nil : firstObstacle ([] : List (Bool × ε)) = none := rfl

/-- Wording the obstacles otherwise leaves their order. -/
theorem firstObstacle_map (f : ε → ε') (obstacles : List (Bool × ε)) :
    firstObstacle (obstacles.map fun o => (o.1, f o.2)) = (firstObstacle obstacles).map f := by
  induction obstacles with
  | nil => rfl
  | cons o rest ih =>
      obtain ⟨there, cause⟩ := o
      rw [List.map_cons, firstObstacle_cons, firstObstacle_cons, ih]
      cases there <;> rfl

theorem firstObstacle_eq_none_iff {obstacles : List (Bool × ε)} :
    firstObstacle obstacles = none ↔ ∀ o ∈ obstacles, o.1 = false := by
  simp [firstObstacle]

end

namespace Entry

/-- The ledger that an entry names in its first word. -/
def ledgerWord (entry : Bytes) : LedgerId := ⟨wordAt 0 entry⟩

/-- The id that an entry names in its second word. -/
def idWord (entry : Bytes) : EntryId := ⟨wordAt 8 entry⟩

end Entry

open Entry (ledgerWord idWord)

namespace Store

variable {s : Store} {entry : Bytes}

/-- What a store looks for before it stores an entry, in order. -/
def obstacles (s : Store) (entry : Bytes) : List (Bool × StoreError) :=
  [(entry.length < 16, .malformedEntry ⟨entry.length, 16⟩),
    (!(idWord entry).isUser, .rejected ((idWord entry).text ++ " is reserved for meta entries")),
    (!s.ledgers.contains (ledgerWord entry), .noLedger (ledgerWord entry)),
    ((s.entryAt? (ledgerWord entry) (idWord entry)).isSome,
      .duplicateEntry (ledgerWord entry) (idWord entry))]

theorem readHeader_of_long (hlong : ¬ entry.length < 16) :
    Entry.readHeader entry = .ok ⟨ledgerWord entry, idWord entry⟩ := if_neg hlong

theorem exists_of_isSome_entryAt? {l : LedgerId} {e : EntryId}
    (h : (s.entryAt? l e).isSome = true) :
    ∃ x, s.ledgers.get? l = some x ∧ x.entries.contains e = true := by
  obtain ⟨bytes, hbytes⟩ := Option.isSome_iff_exists.mp h
  obtain ⟨t, ht, hget⟩ := Option.bind_eq_some_iff.mp hbytes
  obtain ⟨x, hx, rfl⟩ := Option.map_eq_some_iff.mp ht
  exact ⟨x, hx, by simp [Table.contains, hget]⟩

/-- An entry is refused for the first obstacle. -/
theorem append_of_obstacle {cause : StoreError}
    (h : firstObstacle (s.obstacles entry) = some cause) : append entry s = .error cause := by
  unfold obstacles at h
  simp only [firstObstacle_cons, firstObstacle_nil, decide_eq_true_eq] at h
  unfold append
  -- the guards come in the order of the obstacles
  split at h
  next hshort =>
    cases h
    have hread : Entry.readHeader entry = .error ⟨entry.length, 16⟩ := if_pos hshort
    rw [hread]
  next hlong =>
    rw [readHeader_of_long hlong]
    dsimp only
    split at h
    next hmeta =>
      cases h
      exact if_pos hmeta
    next huser =>
      refine (if_neg huser).trans ?_
      split at h
      next habsent =>
        cases h
        have hnone : s.ledgers.get? (ledgerWord entry) = none := by
          simpa [Table.contains] using habsent
        rw [hnone]
      next =>
        split at h
        next htaken =>
          cases h
          obtain ⟨x, hx, hcontains⟩ := exists_of_isSome_entryAt? htaken
          rw [hx]
          exact if_pos hcontains
        next => cases h

/-- An entry that meets no obstacle has a place in a ledger. -/
theorem place_of_no_obstacle (h : firstObstacle (s.obstacles entry) = none) :
    Entry.readHeader entry = .ok ⟨ledgerWord entry, idWord entry⟩ ∧
      (idWord entry).isUser = true ∧ ∃ x, s.ledgers.get? (ledgerWord entry) = some x ∧
        x.entries.get? (idWord entry) = none := by
  have hnone := firstObstacle_eq_none_iff.mp h
  simp only [obstacles, List.mem_cons, List.not_mem_nil, or_false, forall_eq_or_imp, forall_eq,
    decide_eq_false_iff_not, Bool.not_eq_false'] at hnone
  obtain ⟨hlong, huser, hheld, hnew⟩ := hnone
  obtain ⟨x, hx⟩ := Option.isSome_iff_exists.mp hheld
  refine ⟨readHeader_of_long hlong, huser, x, hx, ?_⟩
  simpa [entryAt?, entriesOf?, hx] using hnew

end Store

namespace Host

variable {w : Host} {l : LedgerId} {entry : Bytes}

/-- What a handle of a ledger looks for before it asks the store. -/
def handleObstacles (l : LedgerId) (entry : Bytes) : List (Bool × HandleError) :=
  [(entry.length < 8, .entryTooShort ⟨entry.length, 8⟩),
    (ledgerWord entry ≠ l, .ledgerMismatch (ledgerWord entry) l)]

/-- What stands between an entry and a ledger, in the order in which it is looked for. -/
def obstacles (s : Store) (l : LedgerId) (entry : Bytes) : List (Bool × HandleError) :=
  [(entry.length < 8, .entryTooShort ⟨entry.length, 8⟩),
    (ledgerWord entry ≠ l, .ledgerMismatch (ledgerWord entry) l),
    (entry.length < 16, .store (.malformedEntry ⟨entry.length, 16⟩)),
    (!(idWord entry).isUser,
      .store (.rejected ((idWord entry).text ++ " is reserved for meta entries"))),
    (!s.ledgers.contains l, .store (.noLedger l)),
    ((s.entryAt? l (idWord entry)).isSome, .store (.duplicateEntry l (idWord entry)))]

/-- What an entry makes of its ledger, and who is told. -/
structure Accepts (entry : Bytes) (x : Ledger) (told : List Watcher) (y : Ledger) : Prop where
  rest : y = { x with entries := y.entries, confirmed := y.confirmed, watches := y.watches }
  entries : y.entries = x.entries.insert (idWord entry) entry
  confirmed : 24 ≤ entry.length → IsGreatest {x.confirmed, ⟨Entry.wordAt 16 entry⟩} y.confirmed
  unconfirmed : entry.length < 24 → y.confirmed = x.confirmed
  /-- If more is confirmed now, those are told who know of less. -/
  woken : told = (x.watches.known.entries.filter fun b =>
    x.confirmed < y.confirmed && b.2 < y.confirmed).map Prod.fst
  /-- They leave the list, and those of them who wait again are back as the last. -/
  watches : y.watches.known.entries =
    (x.watches.known.entries.filter fun b =>
      !(x.confirmed < y.confirmed && b.2 < y.confirmed)) ++
        (told.filter fun who => who.reaction = .rearm).map fun who => (who, y.confirmed)

/-- What comes of submitting an entry through a writable handle of a ledger. -/
structure Submission (w : Host) (h : Nat) (l : LedgerId) (entry : Bytes)
    (answer : Except HandleError Answer) (w' : Host) : Prop where
  answered : answer =
    match firstObstacle (obstacles w.store l entry) with
    | some cause => .error cause
    | none => .ok (.entry (idWord entry))
  succeeds : (∃ a, answer = .ok a) ↔
    16 ≤ entry.length ∧ entry.take 8 = BigEndian.encodeWord l.value ∧
      0 ≤ (idWord entry).value ∧ w.store.ledgers.contains l = true ∧
      w.store.entryAt? l (idWord entry) = none
  failed : ∀ {cause}, answer = .error cause → w' = w
  accepted : ∀ {a}, answer = .ok a → ∃ x told y, w.store.ledgers.get? l = some x ∧
    Accepts entry x told y ∧
    w' = { w with
      store := { w.store with ledgers := w.store.ledgers.insert l y }
      events := w.events ++ told.map fun who => Notice.event ⟨who, l, y.confirmed⟩ }
  /-- The handle refuses some entries without a call on the store, whatever fault is planned. -/
  unasked : entry.length < 8 ∨ ledgerWord entry ≠ l → ∀ faults,
    (({ w with faults } : Host).use (.writable h) (.append entry)).2 = { w with faults }
  /-- For all others it asks once, and a planned fault may answer. -/
  asked : ¬ (entry.length < 8 ∨ ledgerWord entry ≠ l) → ∀ plan,
    (({ w with faults := some plan } : Host).use (.writable h) (.append entry)).2.faults.map
      (·.count .append) = some (plan.count .append + 1)

/-! ### What an entry makes of its ledger -/

/-- What is confirmed afterwards is the later of what was and what an entry with room for a
third word tells of. -/
theorem isGreatest_raise (c : EntryId) (hlong : 24 ≤ entry.length) :
    IsGreatest {c, ⟨Entry.wordAt 16 entry⟩} (Entry.raise c entry) := by
  have htold : Entry.confirmed? entry = some ⟨Entry.wordAt 16 entry⟩ := if_neg (by omega)
  constructor
  · rcases Entry.raise_cases c entry with hsame | hraised
    · exact Or.inl hsame
    · exact Or.inr (Option.some.inj (hraised.symm.trans htold))
  · rintro c' (rfl | rfl)
    · exact Entry.le_raise _ entry
    · exact Entry.told_le_raise c htold

theorem raise_of_short (c : EntryId) (hshort : entry.length < 24) : Entry.raise c entry = c := by
  have hnone : Entry.confirmed? entry = none := if_pos hshort
  unfold Entry.raise
  rw [hnone]

/-- Taking an entry stores it, raises what is confirmed and wakes watchers, and does nothing
else. -/
theorem accept_accepts (x : Ledger) (entry : Bytes) :
    Accepts entry x (x.woken entry) (x.accept (idWord entry) entry) := by
  have hconfirmed := x.accept_confirmed (idWord entry) entry
  have heq := x.accept_eq (idWord entry) entry
  have hwatches := x.accept_watches (idWord entry) entry
  constructor
  case rest => rw [heq]
  case entries => rw [heq]
  case confirmed =>
    intro hlong
    rw [hconfirmed]
    exact isGreatest_raise x.confirmed hlong
  case unconfirmed =>
    intro hshort
    rw [hconfirmed]
    exact raise_of_short x.confirmed hshort
  case woken =>
    rw [hconfirmed]
    rfl
  case watches =>
    rw [hconfirmed]
    exact hwatches

/-! ### What is answered -/

/-- Obstacles are met in order: those of the handle before those of the store. -/
theorem firstObstacle_append {ε : Type} (obstacles more : List (Bool × ε)) :
    firstObstacle (obstacles ++ more) = (firstObstacle obstacles).or (firstObstacle more) := by
  induction obstacles with
  | nil => rfl
  | cons o rest ih =>
      obtain ⟨there, cause⟩ := o
      rw [List.cons_append, firstObstacle_cons, firstObstacle_cons, ih]
      cases there <;> rfl

theorem firstObstacle_of_handle (s : Store) {cause : HandleError}
    (h : firstObstacle (handleObstacles l entry) = some cause) :
    firstObstacle (obstacles s l entry) = some cause := by
  change firstObstacle (handleObstacles l entry ++ _) = _
  rw [firstObstacle_append, h, Option.some_or]

/-- The obstacles are those of the handle, and then those of the store. -/
theorem firstObstacle_obstacles (s : Store) (entry : Bytes) :
    firstObstacle (obstacles s (ledgerWord entry) entry) =
      (firstObstacle (handleObstacles (ledgerWord entry) entry)).or
        ((firstObstacle (s.obstacles entry)).map .store) := by
  rw [← firstObstacle_map, ← firstObstacle_append]
  rfl

/-- A handle refuses an entry for the first obstacle of its own, and asks nobody. -/
theorem appendThrough_of_obstacle (w : Host) {cause : HandleError}
    (h : firstObstacle (handleObstacles l entry) = some cause) :
    w.appendThrough l entry = (.error cause, w) := by
  unfold handleObstacles at h
  simp only [firstObstacle_cons, firstObstacle_nil, decide_eq_true_eq] at h
  unfold appendThrough
  split at h
  next hshort =>
    cases h
    have hread : Entry.readLedger entry = .error ⟨entry.length, 8⟩ := if_pos hshort
    rw [hread]
  next hlong =>
    have hread : Entry.readLedger entry = .ok (ledgerWord entry) := if_neg hlong
    rw [hread]
    dsimp only
    split at h
    next hother =>
      cases h
      exact if_pos hother
    next => cases h

theorem handleObstacles_eq_none_iff :
    firstObstacle (handleObstacles l entry) = none ↔
      ¬ (entry.length < 8 ∨ ledgerWord entry ≠ l) := by
  simp [firstObstacle_eq_none_iff, handleObstacles]

/-- What the handle has nothing against is submitted to the store, which answers. -/
theorem appendThrough_of_no_obstacle (w : Host)
    (h : firstObstacle (handleObstacles l entry) = none) :
    (w.appendThrough l entry).1 =
        ((w.append .planned entry).1.mapError HandleError.store).map Answer.entry ∧
      (w.appendThrough l entry).2 = (w.append .planned entry).2 := by
  obtain ⟨hlong, hown⟩ := not_or.mp (handleObstacles_eq_none_iff.mp h)
  have hread : Entry.readLedger entry = .ok (ledgerWord entry) := if_neg hlong
  unfold appendThrough
  rw [hread]
  dsimp only
  rw [if_neg hown]
  rcases w.append .planned entry with ⟨e | id, w'⟩ <;> exact ⟨rfl, rfl⟩

end Host

/-! ### How often the store is asked -/

namespace Host

variable {w : Host} {l : LedgerId} {entry : Bytes}

/-- The number of calls of a kind that the fault plan counted, if there is one. -/
def counted (w : Host) (c : StoreCall) : Option Nat := w.faults.map (·.count c)

/-- Every call to the store is counted by its kind, if calls are counted at all. -/
theorem enter_counted (w : Host) (c c' : StoreCall) :
    (w.enter c).2.counted c' = (w.counted c').map (· + if c = c' then 1 else 0) := by
  unfold enter counted
  cases hfaults : w.faults with
  | none =>
      dsimp only
      rw [hfaults]
      rfl
  | some plan => exact congrArg some (plan.count_enter c c')

theorem ask_faults {α : Type} (w : Host) (action : StoreAction α) :
    (w.ask action).2.faults = w.faults := by
  unfold ask
  split <;> rfl

/-- A call is counted whether it succeeds or not. -/
theorem call_counted {α : Type} (w : Host) (c c' : StoreCall) (action : StoreAction α) :
    (w.call c action).2.counted c' = (w.counted c').map (· + if c = c' then 1 else 0) := by
  have hentered := enter_counted w c c'
  unfold call
  split
  next heq => rwa [heq] at hentered
  next w₁ heq =>
    rw [heq] at hentered
    unfold counted at hentered ⊢
    rwa [ask_faults]

/-- Watchers who are told submit no entries. -/
theorem tellWatchers_counted (notices : List Notice) (w : Host) :
    (notices.foldl tellWatcher w).counted .append = w.counted .append := by
  induction notices generalizing w with
  | nil => rfl
  | cons notice notices ih =>
      rw [List.foldl_cons, ih]
      unfold tellWatcher
      cases notice.watcher.reaction with
      | record => rfl
      | rearm | read => exact (call_counted w _ .append _).trans (by simp)

/-- However many watchers call on the store, only the entry counts as one. -/
theorem append_counted (w : Host) (entry : Bytes) :
    (w.append .planned entry).2.counted .append = (w.counted .append).map (· + 1) := by
  have hsend : (w.send .planned .append (Store.append entry)).2.counted .append =
      (w.counted .append).map (· + 1) := call_counted w .append .append (Store.append entry)
  unfold append
  split
  next heq => rwa [heq] at hsend
  next heq =>
    rw [heq] at hsend
    exact (tellWatchers_counted _ _).trans hsend

/-! ### Submissions -/

/-- What opens with the word of a ledger names the ledger. -/
theorem ledgerWord_eq_iff (hlong : 8 ≤ entry.length) :
    ledgerWord entry = l ↔ entry.take 8 = BigEndian.encodeWord l.value := by
  have hword : BigEndian.encodeWord (Entry.wordAt 0 entry) ++ entry.drop (0 + 8) = entry.drop 0 :=
    Entry.encodeWord_wordAt_append hlong
  constructor
  · rintro rfl
    rw [List.drop_zero] at hword
    nth_rewrite 1 [← hword]
    exact List.take_left' (BigEndian.length_encodeWord _)
  · intro hopens
    unfold ledgerWord Entry.wordAt
    rw [List.drop_zero, hopens, BigEndian.decodeWord_encodeWord]

/-- Nothing is in the way of an entry with a header of this ledger, a user's id, and a
new one. -/
theorem obstacles_eq_none_iff {s : Store} :
    firstObstacle (obstacles s l entry) = none ↔
      16 ≤ entry.length ∧ entry.take 8 = BigEndian.encodeWord l.value ∧
        0 ≤ (idWord entry).value ∧ s.ledgers.contains l = true ∧
        s.entryAt? l (idWord entry) = none := by
  rw [firstObstacle_eq_none_iff]
  simp only [obstacles, List.mem_cons, List.not_mem_nil, or_false, forall_eq_or_imp, forall_eq,
    decide_eq_false_iff_not, Bool.not_eq_false', Option.isSome_eq_false_iff,
    Option.isNone_iff_eq_none, EntryId.isUser, decide_eq_true_eq, ne_eq, Classical.not_not]
  constructor
  · rintro ⟨hword, hown, hlong, huser, hheld, hnew⟩
    have hopens := (ledgerWord_eq_iff (Nat.le_of_not_lt hword)).mp hown
    exact ⟨Nat.le_of_not_lt hlong, hopens, huser, hheld, hnew⟩
  · rintro ⟨hlong, hopens, huser, hheld, hnew⟩
    exact ⟨by omega, (ledgerWord_eq_iff (by omega)).mpr hopens, by omega, huser, hheld, hnew⟩

theorem use_append_of_handle {h : Nat} {x : Handle} (hx : w.handles.get? h = some x)
    (entry : Bytes) :
    w.use (.writable h) (.append entry) = w.appendThrough x.ledger entry := by
  have hat := handleAt_of_get? hx
  change w.appendThrough (w.handleAt h).ledger entry = _
  rw [hat]

/-- An entry is refused for its first obstacle, or accepted. -/
theorem appendThrough_unplanned_cases (hunplanned : w.faults = none) (l : LedgerId)
    (entry : Bytes) :
    (∃ cause, firstObstacle (obstacles w.store l entry) = some cause ∧
        w.appendThrough l entry = (.error cause, w)) ∨
      firstObstacle (obstacles w.store l entry) = none ∧
        ∃ x, w.store.ledgers.get? l = some x ∧ w.appendThrough l entry =
          (.ok (.entry (idWord entry)), w.accepting l (idWord entry) x entry) := by
  cases hhandle : firstObstacle (handleObstacles l entry) with
  | some cause =>
      exact Or.inl ⟨cause, firstObstacle_of_handle _ hhandle, appendThrough_of_obstacle w hhandle⟩
  | none =>
      obtain ⟨hanswer, hhost⟩ := appendThrough_of_no_obstacle w hhandle
      obtain rfl : ledgerWord entry = l :=
        Classical.not_not.mp (not_or.mp (handleObstacles_eq_none_iff.mp hhandle)).2
      rw [firstObstacle_obstacles, hhandle, Option.none_or]
      cases hstore : firstObstacle (w.store.obstacles entry) with
      | some cause =>
          have happend : w.append .planned entry = (.error cause, w) :=
            append_of_refused hunplanned .planned (Store.append_of_obstacle hstore)
          rw [happend] at hanswer hhost
          exact Or.inl ⟨.store cause, rfl, Prod.ext hanswer hhost⟩
      | none =>
          obtain ⟨hheader, huser, x, hx, hnew⟩ := Store.place_of_no_obstacle hstore
          have happend := append_of_accepted hunplanned .planned hheader huser hx hnew
          rw [happend] at hanswer hhost
          exact Or.inr ⟨rfl, x, hx, Prod.ext hanswer hhost⟩

theorem use_append_unasked {h : Nat} {x : Handle} (hx : w.handles.get? h = some x)
    (hrefused : entry.length < 8 ∨ ledgerWord entry ≠ x.ledger) :
    (w.use (.writable h) (.append entry)).2 = w := by
  cases hhandle : firstObstacle (handleObstacles x.ledger entry) with
  | none => exact absurd hrefused (handleObstacles_eq_none_iff.mp hhandle)
  | some cause => rw [use_append_of_handle hx, appendThrough_of_obstacle w hhandle]

theorem use_append_counted {h : Nat} {x : Handle} (hx : w.handles.get? h = some x)
    (hasked : ¬ (entry.length < 8 ∨ ledgerWord entry ≠ x.ledger)) :
    (w.use (.writable h) (.append entry)).2.counted .append =
      (w.counted .append).map (· + 1) := by
  have hnone := handleObstacles_eq_none_iff.mpr hasked
  rw [use_append_of_handle hx, (appendThrough_of_no_obstacle w hnone).2]
  exact append_counted w entry

/-- What a handle answers to an entry, and all that it does, without planned faults. -/
theorem submission_of_unplanned (hunplanned : w.faults = none) {h : Nat} {x : Handle}
    (hx : w.handles.get? h = some x) (entry : Bytes) :
    Submission w h x.ledger entry (w.use (.writable h) (.append entry)).1
      (w.use (.writable h) (.append entry)).2 := by
  -- what is not refused for its first obstacle is accepted
  have hcases := appendThrough_unplanned_cases hunplanned x.ledger entry
  constructor
  case unasked =>
    intro hrefused faults
    exact use_append_unasked (w := { w with faults }) hx hrefused
  case asked =>
    intro hasked plan
    exact use_append_counted (w := { w with faults := some plan }) hx hasked
  all_goals rw [use_append_of_handle hx]
  case answered =>
    rcases hcases with ⟨cause, hfirst, hrefused⟩ | ⟨hfirst, y, -, haccepted⟩
    · rw [hrefused, hfirst]
    · rw [haccepted, hfirst]
  case succeeds =>
    rw [← obstacles_eq_none_iff]
    rcases hcases with ⟨cause, hfirst, hrefused⟩ | ⟨hfirst, y, -, haccepted⟩
    · simp [hrefused, hfirst]
    · simp [haccepted, hfirst]
  case failed =>
    intro cause hfailed
    rcases hcases with ⟨cause', -, hrefused⟩ | ⟨-, y, -, haccepted⟩
    · rw [hrefused]
    · rw [haccepted] at hfailed
      cases hfailed
  case accepted =>
    intro a hok
    rcases hcases with ⟨cause, -, hrefused⟩ | ⟨-, y, hy, haccepted⟩
    · rw [hrefused] at hok
      cases hok
    · refine ⟨y, y.woken entry, y.accept (idWord entry) entry, hy, accept_accepts y entry, ?_⟩
      rw [haccepted]
      rfl

/-- After every run without planned faults, submitting an entry through a writable handle comes
to what `Submission` says. -/
theorem entry_written_or_refused (ops : List Op) {h : Nat} {x : Handle}
    (hx : ((start none).run ops).handles.get? h = some x) (entry : Bytes) :
    Submission ((start none).run ops) h x.ledger entry
      (((start none).run ops).use (.writable h) (.append entry)).1
      (((start none).run ops).use (.writable h) (.append entry)).2 :=
  submission_of_unplanned (run_unplanned ops) hx entry

/-- Two wait on a ledger that has a handle. One of them waits again when told. -/
def awaiting : List Op :=
  [.createHandle ⟨1⟩ [0x6b] false, .request .direct (.watch ⟨1⟩ .unset ⟨"once", .record⟩),
    .request .direct (.watch ⟨1⟩ ⟨4⟩ ⟨"again", .rearm⟩)]

/-- An entry that tells of the fifth as confirmed is stored. Another ledger's is refused, and so
is one that is too short for the store. -/
theorem written_while_awaiting :
    (((start none).run awaiting).use (.writable 0) (.append (Entry.encode ⟨1⟩ ⟨0⟩ ⟨5⟩ []))).1 =
        .ok (.entry ⟨0⟩) ∧
      (((start none).run awaiting).use (.writable 0) (.append (Entry.encode ⟨2⟩ ⟨0⟩ ⟨5⟩ []))).1 =
        .error (.ledgerMismatch ⟨2⟩ ⟨1⟩) ∧
      (((start none).run awaiting).use (.writable 0)
          (.append (BigEndian.encodeWord 1))).1 =
        .error (.store (.malformedEntry ⟨8, 16⟩)) := by
  refine ⟨?_, ?_, ?_⟩
  · exact (entry_written_or_refused awaiting (h := 0) rfl _).answered.trans rfl
  · exact (entry_written_or_refused awaiting (h := 0) rfl _).answered.trans rfl
  · exact (entry_written_or_refused awaiting (h := 0) rfl _).answered.trans rfl

end Host

end FencedLedger
