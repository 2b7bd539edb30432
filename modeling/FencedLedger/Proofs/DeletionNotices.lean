import FencedLedger.Proofs.Subscriptions

/-!
# Who is told of a deletion

A deletion tells its subscribers one after the other, and each of them may act on the host
before the next is told: create the ledger anew, fence it, subscribe or delete in turn.
Whatever came before and whatever they do, it tells those who were there when the ledger
was removed, once for each of their subscriptions and in that order, what was true at the
removal.
-/

namespace FencedLedger

/-- What a subscriber was told of a deletion, and what it found. -/
structure Told where
  who : Subscriber
  ledger : LedgerId
  wasFenced : Bool
  /-- Whether the store held the ledger when the subscriber was told. -/
  held : Bool
  deriving DecidableEq, Repr

/-- What the deletion said, apart from what the subscriber found. -/
def Told.notice (t : Told) : Subscriber × LedgerId × Bool := (t.who, t.ledger, t.wasFenced)

/-- What an event reports of the telling of an observer: its name, what it was told, and
whether the store held the ledger. -/
def Event.report? : Event → Option (String × LedgerId × Bool × Bool)
  | .deleted observer ledger wasFenced held _ => some (observer, ledger, wasFenced, held)
  | _ => none

namespace Host

variable {w w' : Host} {l : LedgerId} {subscribed : List Subscriber}

/-! ### A deletion and what its subscribers do -/

/-- A deletion: how it is answered, whom it told, and the host behind it. -/
structure Announced where
  answer : Except StoreError Unit
  told : List Told
  host : Host

/-- What a subscriber lets happen once it was told, with the host as it finds it. -/
abbrev Conduct := Subscriber → Host → List Happening

/-- Tell one subscriber after the other, and let each of them act before the next is
told. -/
def tellAll (l : LedgerId) (wasFenced : Bool) (conduct : Conduct) :
    List Subscriber → Host → List Told × Host
  | [], w => ([], w)
  | who :: rest, w =>
      let w' := tellSubscriber l wasFenced w who
      let (told, w'') := tellAll l wasFenced conduct rest (w'.afterAll (conduct who w'))
      (⟨who, l, wasFenced, w.store.ledgers.contains l⟩ :: told, w'')

/-- Delete a ledger, where the subscribers may act on the host when they are told. -/
def announce (w : Host) (access : Access) (l : LedgerId) (conduct : Conduct) : Announced :=
  match w.removal access l with
  | (.error e, w') => ⟨.error e, [], w'⟩
  | (.ok (wasFenced, subscribers), w') =>
      let (told, w'') := tellAll l wasFenced conduct subscribers w'
      ⟨.ok (), told, w''⟩

/-- Subscribers who do no more than the host has them do. -/
def idly : Conduct := fun _ _ => []

/-- What happens when subscribers are told: each of them is, and then it acts before the next
one is told. -/
def tellings (l : LedgerId) (wasFenced : Bool) (conduct : Conduct) :
    List Subscriber → Host → List Happening
  | [], _ => []
  | who :: rest, w =>
      let w' := tellSubscriber l wasFenced w who
      let acts := conduct who w'
      .tell who l wasFenced :: (acts ++ tellings l wasFenced conduct rest (w'.afterAll acts))

/-- What happens when a ledger is deleted. -/
def announcing (w : Host) (access : Access) (l : LedgerId) (conduct : Conduct) :
    List Happening :=
  .remove access l ::
    match w.removal access l with
    | (.error _, _) => []
    | (.ok (wasFenced, subscribers), w') => tellings l wasFenced conduct subscribers w'

section Telling

variable (l) (wasFenced : Bool) (conduct : Conduct)

/-- What the ones before did makes no difference to what is told. -/
theorem tellAll_notices (subscribers : List Subscriber) (w : Host) :
    (tellAll l wasFenced conduct subscribers w).1.map Told.notice =
      subscribers.map fun who => (who, l, wasFenced) := by
  induction subscribers generalizing w with
  | nil => rfl
  | cons who subscribers ih => exact congrArg (List.cons _) (ih _)

theorem tellAll_idly (subscribers : List Subscriber) (w : Host) :
    (tellAll l wasFenced idly subscribers w).2 =
      subscribers.foldl (tellSubscriber l wasFenced) w := by
  induction subscribers generalizing w with
  | nil => rfl
  | cons who subscribers ih => exact ih _

theorem afterAll_append (w : Host) (course course' : List Happening) :
    w.afterAll (course ++ course') = (w.afterAll course).afterAll course' := by
  unfold afterAll
  exact List.foldl_append

/-- The host is the one behind what happened. -/
theorem tellAll_course (subscribers : List Subscriber) (w : Host) :
    (tellAll l wasFenced conduct subscribers w).2 =
      w.afterAll (tellings l wasFenced conduct subscribers w) := by
  induction subscribers generalizing w with
  | nil => rfl
  | cons who subscribers ih =>
      let w' := tellSubscriber l wasFenced w who
      change _ = w'.afterAll _
      rw [afterAll_append]
      exact ih _

end Telling

/-- A deletion is itself a course, so it may be part of what a subscriber of another one
lets happen. -/
theorem announce_course (w : Host) (access : Access) (l : LedgerId) (conduct : Conduct) :
    (w.announce access l conduct).host = w.afterAll (w.announcing access l conduct) := by
  unfold announce announcing
  change _ = (w.removal access l).2.afterAll _
  split
  next heq => rw [heq]; rfl
  next wasFenced subscribers w' heq =>
    rw [heq]
    exact tellAll_course l wasFenced conduct subscribers w'

/-! ### What a deletion says -/

/-- A deletion told those who were there when the ledger was removed. -/
structure TellsInFull (subscribed : List Subscriber) (l : LedgerId) (w : Host) (d : Announced) :
    Prop where
  /-- A deletion that fails tells nobody and changes nothing. -/
  failed : ∀ e, d.answer = .error e →
    d.told = [] ∧ d.host.store = w.store ∧ d.host.events = w.events
  /-- The ledger was there. -/
  removed : d.answer = .ok () → w.store.ledgers.contains l = true
  /-- Once for each subscription and in that order, with the bit that the ledger had. -/
  told : d.answer = .ok () → d.told.map Told.notice =
    (subscribed.filter w.isPresent).map fun who => (who, l, w.store.holdsFenced l)
  /-- The first one is told when the ledger is gone. -/
  first : ∀ first rest, d.told = first :: rest → first.held = false

theorem removal_silent (w : Host) (access : Access) (l : LedgerId) :
    Works (fun _ => false) w (w.removal access l).2 :=
  send_works _ (Store.remove_isAsk w.isPresent l) w access .remove

theorem removal_error {access : Access} {e : StoreError}
    (h : w.removal access l = (.error e, w')) : w'.store = w.store ∧ w'.events = w.events := by
  have hsilent := removal_silent w access l
  rw [h] at hsilent
  exact ⟨(send_error h).store, hsilent.emits.events_eq⟩

/-- The list of those to be told is settled by the removal, before anybody acts. -/
theorem Enrolls.tellsInFull (h : Enrolls subscribed w) (access : Access) (l : LedgerId)
    (conduct : Conduct) : TellsInFull subscribed l w (w.announce access l conduct) := by
  unfold announce
  split
  next e w' hremoval =>
    obtain ⟨hstore, hevents⟩ := removal_error hremoval
    exact ⟨fun _ _ => ⟨rfl, hstore, hevents⟩, nofun, nofun, nofun⟩
  next wasFenced subscribers w' hremoval =>
    obtain ⟨-, hremoves, hbit, hfilter, -⟩ := removal_ok hremoval
    refine ⟨nofun, fun _ => hremoves.contains.1, fun _ => ?_, ?_⟩
    · dsimp only
      rw [tellAll_notices, hfilter, h.kept, hbit]
    · intro first rest hfirst
      -- nobody acts between the removal and the first telling
      cases subscribers with
      | nil => cases hfirst
      | cons who subscribers =>
          cases hfirst
          exact hremoves.contains.2

/-- Whoever is told was there, and hears of the ledger and the bit that it had. -/
theorem TellsInFull.of_mem {d : Announced} (h : TellsInFull subscribed l w d) {t : Told}
    (ht : t ∈ d.told) :
    w.isPresent t.who = true ∧ t.ledger = l ∧ t.wasFenced = w.store.holdsFenced l := by
  cases hanswer : d.answer with
  | error e =>
      rw [(h.failed e hanswer).1] at ht
      cases ht
  | ok =>
      have hnotice := List.mem_map_of_mem (f := Told.notice) ht
      rw [h.told hanswer] at hnotice
      obtain ⟨who, hwho, heq⟩ := List.mem_map.mp hnotice
      obtain ⟨rfl, hledger, hbit⟩ : who = t.who ∧ l = t.ledger ∧
          w.store.holdsFenced l = t.wasFenced := by
        simpa [Told.notice] using heq
      exact ⟨(List.mem_filter.mp hwho).2, hledger.symm, hbit.symm⟩

/-- A deletion succeeds if the store holds the ledger and no fault answers in its place. -/
theorem announce_ok_iff {access : Access} (hasked : access = .direct ∨ w.faults = none)
    (l : LedgerId) (conduct : Conduct) :
    (w.announce access l conduct).answer = .ok () ↔ w.store.ledgers.contains l = true := by
  have hremoval : w.removal access l = w.ask (Store.remove w.isPresent l) := by
    rcases hasked with rfl | hunplanned
    · rfl
    · exact send_of_unplanned hunplanned access .remove _
  unfold announce
  rw [hremoval]
  unfold Host.ask Store.remove Table.contains
  cases w.store.ledgers.get? l with
  | none => simp
  | some x => simp

/-! ### What observers report -/

/-- What the event of the telling of a subscriber reports. A cache raises none. -/
def reported? (w : Host) (t : Told) : Option (String × LedgerId × Bool × Bool) :=
  match t.who with
  | .cache _ => none
  | .observer o => (w.observers.get? o).map fun x => (x.label, t.ledger, t.wasFenced, t.held)

/-- What was reported of deletions so far, oldest first. -/
def reports (w : Host) : List (String × LedgerId × Bool × Bool) :=
  w.events.filterMap Event.report?

theorem reports_of_silent (h : Works (fun _ => false) w w') : w'.reports = w.reports := by
  unfold reports
  rw [h.emits.events_eq]

theorem emit_reports (w : Host) (e : Event) :
    (w.emit e).reports = w.reports ++ e.report?.toList := by
  unfold reports emit
  dsimp only
  rw [List.filterMap_append]
  cases h : e.report? <;> simp [h]

/-- Only an observer raises an event about a deletion, and it says what the observer found. -/
theorem tellSubscriber_reports (w : Host) (l : LedgerId) (wasFenced : Bool) (who : Subscriber) :
    (tellSubscriber l wasFenced w who).reports = w.reports ++
      (w.reported? ⟨who, l, wasFenced, w.store.ledgers.contains l⟩).toList := by
  cases who with
  | cache c =>
      rw [show (reported? w _) = none from rfl, Option.toList_none, List.append_nil]
      exact reports_of_silent ((works_holdsOfLookups _).tellCache w c l wasFenced)
  | observer o =>
      unfold tellSubscriber reported?
      dsimp only
      cases w.observers.get? o with
      | none => simp
      | some observer =>
          unfold tellObserver
          dsimp only
          split
          next => exact emit_reports w _
          next r _ =>
            have hopened := reports_of_silent
              ((works_holdsOfLookups _).openWritable w r.cache l r.key r.replay)
            rw [emit_reports, hopened]
            rfl

/-- Every observer that is told raises an event that says so. -/
theorem tellAll_reports (l : LedgerId) (wasFenced : Bool) (subscribers : List Subscriber)
    (w : Host) :
    (tellAll l wasFenced idly subscribers w).2.reports = w.reports ++
      (tellAll l wasFenced idly subscribers w).1.filterMap w.reported? := by
  induction subscribers generalizing w with
  | nil => simp [tellAll]
  | cons who subscribers ih =>
      have hsame : (tellSubscriber l wasFenced w who).reported? = w.reported? := by
        funext t
        unfold reported?
        rw [(tellSubscriber_keepsAudience w l wasFenced who).observers]
      have hrest := ih (tellSubscriber l wasFenced w who)
      rw [hsame, tellSubscriber_reports, List.append_assoc] at hrest
      refine hrest.trans (congrArg (w.reports ++ ·) ?_)
      change _ = List.filterMap w.reported? (_ :: (tellAll l wasFenced idly subscribers _).1)
      rw [List.filterMap_cons]
      cases w.reported? ⟨who, l, wasFenced, w.store.ledgers.contains l⟩ <;> rfl

/-- The operation is the deletion whose subscribers do no more than the host has them do. -/
theorem perform_remove (w : Host) (access : Access) (l : LedgerId) :
    w.perform (.remove access l) = answer .store (fun _ => .done)
      ((w.announce access l idly).answer, (w.announce access l idly).host) := by
  refine congrArg (answer .store fun _ => .done) ?_
  rw [remove_eq_removal]
  unfold announce
  rcases w.removal access l with ⟨e | ⟨wasFenced, subscribers⟩, w'⟩
  · rfl
  · exact congrArg (Prod.mk _) (tellAll_idly l wasFenced subscribers w').symm

/-- The reports of a deletion are those of the observers that it told, in their order. -/
theorem announce_reports (w : Host) (access : Access) (l : LedgerId) :
    (w.announce access l idly).host.reports =
      w.reports ++ (w.announce access l idly).told.filterMap w.reported? := by
  unfold announce
  split
  next e w' hremoval =>
    unfold reports
    simp [(removal_error hremoval).2]
  next wasFenced subscribers w' hremoval =>
    obtain ⟨honly, -⟩ := removal_ok hremoval
    have hsilent := removal_silent w access l
    rw [hremoval] at hsilent
    have htold := tellAll_reports l wasFenced subscribers w'
    have hsame : w'.reported? = w.reported? := by
      funext t
      unfold reported?
      rw [honly.observers]
    rwa [reports_of_silent hsilent, hsame] at htold

/-! ### Deletions in every course -/

/-- Deletions are told of in full and to nobody else. -/
structure Announces (subscribed : List Subscriber) (w : Host) : Prop where
  /-- Forgetting those who are gone takes nobody else off the list and keeps its order. -/
  enrolled : Enrolls subscribed w
  full : ∀ access l conduct, TellsInFull subscribed l w (w.announce access l conduct)
  /-- Without a fault, a deletion fails only for want of the ledger. -/
  succeeds : ∀ access l conduct, access = .direct ∨ w.faults = none →
    ((w.announce access l conduct).answer = .ok () ↔ w.store.ledgers.contains l = true)
  /-- Whoever is gone is not told again. -/
  gone : ∀ who ∈ subscribed, w.isPresent who = false → ∀ later access l conduct,
    ∀ t ∈ ((w.afterAll later).announce access l conduct).told, t.who ≠ who
  /-- A deletion may happen in the midst of another one. -/
  course : ∀ access l conduct, ∃ course,
    (w.announce access l conduct).host = w.afterAll course
  /-- The operation on a host is such a deletion, and every observer that it tells says
  so. -/
  operation : ∀ access l,
    w.perform (.remove access l) = answer .store (fun _ => .done)
      ((w.announce access l idly).answer, (w.announce access l idly).host) ∧
    (w.perform (.remove access l)).2.reports =
      w.reports ++ (w.announce access l idly).told.filterMap w.reported?

/-- After everything that may have happened on a host, also in the midst of deletions, each
deletion tells exactly those who subscribed and are still there, once for each subscription
and in that order, of the ledger and the bit that it had, whatever they do when they are
told. -/
theorem deletions_told_in_full (faults : Option FaultPlan) (past : List Happening) :
    Announces ((start faults).subscriptions past) ((start faults).afterAll past) := by
  have henrolled : Enrolls ((start faults).subscriptions past) ((start faults).afterAll past) :=
    (start_enrolls faults).afterAll past
  constructor
  case enrolled => exact henrolled
  case full => exact henrolled.tellsInFull
  case succeeds => exact fun _ l conduct hasked => announce_ok_iff hasked l conduct
  case course => exact fun access l conduct => ⟨_, announce_course _ access l conduct⟩
  case gone =>
    intro who hwho habsent later access l conduct t ht heq
    have hpresent := (((henrolled.afterAll later).tellsInFull access l conduct).of_mem ht).1
    rw [heq] at hpresent
    have hbefore := afterAll_lost (henrolled.met who hwho) later hpresent
    rw [habsent] at hbefore
    cases hbefore
  case operation =>
    refine fun access l => ⟨perform_remove _ access l, ?_⟩
    rw [perform_remove, answer_host]
    exact announce_reports _ access l

/-- A cache and three observers, the second of whom is let go. -/
def gathering : List Happening :=
  [.act (.createCache .standard), .act (.observe ⟨"a", none⟩), .act (.observe ⟨"b", none⟩),
    .act (.observe ⟨"c", some ⟨0, [0x6b], true⟩⟩), .act (.unobserve 1), .subscribe (.observer 0),
    .act (.request .planned (.bindKey ⟨1⟩ [0x6b])), .act (.request .planned (.fence ⟨1⟩))]

/-- The first observer has the ledger created and fenced again. -/
def recreating : Conduct
  | .observer 0, _ =>
      [.act (.request .direct (.bindKey ⟨1⟩ [0x6c])), .act (.request .direct (.fence ⟨1⟩))]
  | _, _ => []

/-- Everybody who is still there is told of the ledger that was removed, and the one who was let
go is not told later either. -/
theorem recreated_ledger_told_in_full :
    let w := (start none).afterAll gathering
    let d := w.announce .planned ⟨1⟩ recreating
    d.answer = .ok () ∧
      d.told = [⟨.cache 0, ⟨1⟩, true, false⟩, ⟨.observer 0, ⟨1⟩, true, false⟩,
        ⟨.observer 2, ⟨1⟩, true, true⟩, ⟨.observer 0, ⟨1⟩, true, true⟩] ∧
      d.told.map Told.notice = (((start none).subscriptions gathering).filter w.isPresent).map
        (fun who => (who, ⟨1⟩, w.store.holdsFenced ⟨1⟩)) ∧
      ∀ later conduct, ∀ t ∈ ((w.afterAll later).announce .direct ⟨1⟩ conduct).told,
        t.who ≠ .observer 1 := by
  intro w d
  have htold := deletions_told_in_full none gathering
  have hanswer : d.answer = .ok () :=
    (htold.succeeds .planned ⟨1⟩ recreating (Or.inr (by decide))).mpr (by decide)
  refine ⟨hanswer, by decide, (htold.full .planned ⟨1⟩ recreating).told hanswer, ?_⟩
  exact fun later conduct =>
    htold.gone (.observer 1) (by decide) (by decide) later .direct ⟨1⟩ conduct

end Host

end FencedLedger
