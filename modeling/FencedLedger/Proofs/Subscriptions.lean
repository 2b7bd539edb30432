import FencedLedger.Proofs.ServedHandles
import FencedLedger.Proofs.StoreAsks
import FencedLedger.Proofs.Timelines

/-!
# Who subscribes

Subscribers come and go, and a deletion forgets the subscriptions of those who are gone.
What happens on a host is put down here as one list, whoever does it and in the midst of
which deletions or fence calls, so that every step between which others may act is one of
its own. Whatever happens, the store has every subscription of those who are there, in
the order in which they were made, and nobody who is gone comes back.
-/

namespace FencedLedger

/-- What may happen on a host, also while deletions and fence calls are under way. -/
inductive Happening where
  /-- Somebody performs an operation. -/
  | act (op : Op)
  /-- Somebody who is known to the host subscribes, perhaps not for the first time. -/
  | subscribe (who : Subscriber)
  /-- A ledger is removed, and nobody is told yet. -/
  | remove (access : Host.Access) (ledger : LedgerId)
  /-- A subscriber is told of a deletion. -/
  | tell (who : Subscriber) (ledger : LedgerId) (wasFenced : Bool)
  /-- A durable fence call is decided on, and its marker is not handed on yet. -/
  | decide (handle : Nat)
  /-- The marker of a call that was decided on is handed to a journal. -/
  | handOn (path : JournalPath) (thread : Thread) (handle outcome : Nat)
  /-- Time passes. -/
  | pass (nanos : Nat)

/-- Whether an operation lets somebody subscribe, or lets go of somebody who may have
subscribed. A deletion does the latter with subscriptions. -/
def Op.changesAudience : Op → Bool
  | .observe _ | .unobserve _ | .createCache _ | .releaseCache _ | .remove .. => true
  | _ => false

namespace Host

variable {w w' w'' : Host} {l : LedgerId}

/-- Whether the host handed out the number of a subscriber, who may be gone since. -/
def hasMet (w : Host) : Subscriber → Bool
  | .cache c => c < w.caches.next
  | .observer o => o < w.observers.next

/-- Remove a ledger from the store, and tell nobody yet. -/
def removal (w : Host) (access : Access) (l : LedgerId) :
    Except StoreError (Bool × List Subscriber) × Host :=
  w.send access .remove (Store.remove w.isPresent l)

/-- Let something happen. -/
def happen (w : Host) : Happening → Host
  | .act op => (w.perform op).2
  | .subscribe who => if w.hasMet who then w.subscribe who else w
  | .remove access l => (w.removal access l).2
  | .tell who l wasFenced => tellSubscriber l wasFenced w who
  | .decide h => (w.decideFence h).2
  | .handOn path t h o => w.submitMarker (submit path) t h o
  | .pass nanos => w.undergo (.pass nanos)

/-- The host after one thing happened after another. -/
def afterAll (w : Host) (course : List Happening) : Host := course.foldl happen w

/-- Who subscribes in a happening. -/
def subscribing (w : Host) : Happening → List Subscriber
  | .act (.observe _) => [.observer w.observers.next]
  | .act (.createCache _) => [.cache w.caches.next]
  | .subscribe who => if w.hasMet who then [who] else []
  | _ => []

/-- Who subscribed over a course, oldest subscription first. -/
def subscriptions : Host → List Happening → List Subscriber
  | _, [] => []
  | w, first :: course => w.subscribing first ++ (w.happen first).subscriptions course

/-! ### Coming and going -/

/-- A step after which more subscribed. Nobody comes back who was gone, and only
subscriptions of those who are gone are forgotten. -/
structure Gathers (joined : List Subscriber) (w w' : Host) : Prop where
  met : ∀ who, w.hasMet who = true → w'.hasMet who = true
  lost : ∀ who, w.hasMet who = true → w'.isPresent who = true → w.isPresent who = true
  joined_met : ∀ who ∈ joined, w'.hasMet who = true
  sublist : w'.store.subscribers.Sublist (w.store.subscribers ++ joined)
  kept : w'.store.subscribers.filter w'.isPresent =
    (w.store.subscribers ++ joined).filter w'.isPresent

/-- Subscriptions and subscribers are as they were. -/
structure KeepsAudience (w w' : Host) : Prop where
  subscribers : w'.store.subscribers = w.store.subscribers
  next : w'.caches.next = w.caches.next
  caches : ∀ c, w'.caches.holds c = w.caches.holds c
  observers : w'.observers = w.observers

theorem keepsAudience_of_eq (hsubscribers : w'.store.subscribers = w.store.subscribers)
    (hcaches : w'.caches = w.caches) (hobservers : w'.observers = w.observers) :
    KeepsAudience w w' :=
  ⟨hsubscribers, congrArg Arena.next hcaches, fun c => congrArg (Arena.holds · c) hcaches,
    hobservers⟩

theorem keepsAudience_of_modify {c : Nat} {f : Cache → Cache}
    (hsubscribers : w'.store.subscribers = w.store.subscribers)
    (hcaches : w'.caches = w.caches.modify c f) (hobservers : w'.observers = w.observers) :
    KeepsAudience w w' where
  subscribers := hsubscribers
  next := by rw [hcaches, Arena.next_modify]
  caches c' := by rw [hcaches, Arena.holds_modify]
  observers := hobservers

theorem KeepsAudience.trans (h : KeepsAudience w w') (h' : KeepsAudience w' w'') :
    KeepsAudience w w'' where
  subscribers := h'.subscribers.trans h.subscribers
  next := h'.next.trans h.next
  caches c := (h'.caches c).trans (h.caches c)
  observers := h'.observers.trans h.observers

theorem KeepsAudience.isPresent (h : KeepsAudience w w') : w'.isPresent = w.isPresent := by
  funext who
  cases who with
  | cache c => exact h.caches c
  | observer o => exact congrArg (Arena.holds · o) h.observers

theorem KeepsAudience.hasMet (h : KeepsAudience w w') (who : Subscriber) :
    w'.hasMet who = w.hasMet who := by
  cases who with
  | cache c => exact congrArg (fun next => decide (c < next)) h.next
  | observer o => exact congrArg (fun arena => decide (o < Arena.next arena)) h.observers

theorem KeepsAudience.gathers (h : KeepsAudience w w') : Gathers [] w w' where
  met who hmet := (h.hasMet who).trans hmet
  lost who _ hpresent := by rwa [h.isPresent] at hpresent
  joined_met := by simp
  sublist := by simp [h.subscribers]
  kept := by rw [h.subscribers, List.append_nil]

theorem StoreOnly.keepsAudience (h : StoreOnly w w')
    (hsubscribers : w'.store.subscribers = w.store.subscribers) : KeepsAudience w w' :=
  keepsAudience_of_eq hsubscribers h.caches h.observers

theorem Idle.keepsAudience (h : Idle w w') : KeepsAudience w w' :=
  h.storeOnly.keepsAudience (by rw [h.store])

theorem SteadyCall.keepsAudience (h : SteadyCall w w') : KeepsAudience w w' :=
  keepsAudience_of_eq h.store.subscribers h.caches h.observers

theorem Fences.keepsAudience (h : Fences w w') : KeepsAudience w w' :=
  keepsAudience_of_eq h.store.subscribers h.caches h.observers

theorem Opens.keepsAudience {c : Nat} {presented : Bytes} (h : Opens c l presented w w') :
    KeepsAudience w w' := by
  cases h with
  | idle h => exact h.keepsAudience
  | makes h _ caches => exact keepsAudience_of_modify h.tells.subscribers caches h.observers

theorem OpensReader.keepsAudience {c : Nat} (h : OpensReader c l w w') : KeepsAudience w w' := by
  cases h with
  | idle h => exact h.keepsAudience
  | makes _ only store _ =>
      exact keepsAudience_of_modify (by rw [store]) only.caches only.observers

theorem tellCache_keepsAudience (w : Host) (c : Nat) (l : LedgerId) (wasFenced : Bool) :
    KeepsAudience w (w.tellCache c l wasFenced) :=
  have hdrops := tellCache_drops w c l wasFenced
  ⟨by rw [hdrops.store], tellCache_next w c l wasFenced, hdrops.held, hdrops.observers⟩

/-- What subscribers do when they are told makes and removes no subscriber. -/
theorem tellSubscriber_keepsAudience (w : Host) (l : LedgerId) (wasFenced : Bool)
    (who : Subscriber) : KeepsAudience w (tellSubscriber l wasFenced w who) := by
  cases who with
  | cache c => exact tellCache_keepsAudience w c l wasFenced
  | observer o =>
      unfold tellSubscriber
      dsimp only
      split
      next => exact keepsAudience_of_eq rfl rfl rfl
      next observer _ =>
        unfold tellObserver
        dsimp only
        split
        next => exact keepsAudience_of_eq rfl rfl rfl
        next r _ =>
          exact (openWritable_opens w r.cache l r.key r.replay).keepsAudience.trans
            (keepsAudience_of_eq rfl rfl rfl)

theorem tellSubscribers_keepsAudience (l : LedgerId) (wasFenced : Bool)
    (subscribers : List Subscriber) (w : Host) :
    KeepsAudience w (subscribers.foldl (tellSubscriber l wasFenced) w) :=
  foldl_holds (fun w => (Idle.refl w).keepsAudience) KeepsAudience.trans
    (tellSubscriber_keepsAudience · l wasFenced) subscribers w

theorem whenHeld_keepsAudience {held : Bool} {r : Except Failure Answer × Host}
    (h : KeepsAudience w r.2) : KeepsAudience w (w.whenHeld held r).2 :=
  whenHeld_host (Idle.refl w).keepsAudience h

/-- Most operations neither make nor remove a subscriber. -/
theorem perform_keepsAudience (w : Host) {op : Op} (hop : op.changesAudience = false) :
    KeepsAudience w (w.perform op).2 := by
  cases op with
  | observe | unobserve | createCache | releaseCache | remove => cases hop
  | request access r =>
      refine (answer_host _ _ _).symm ▸ ?_
      rcases request_cases w access r with hsteady | ⟨l, secret, -, honly, hcreates⟩
      · exact hsteady.keepsAudience
      · exact honly.keepsAudience hcreates.subscribers
  | append access entry =>
      exact (answer_host _ _ _).symm ▸ (append_steadyCall w access entry).keepsAudience
  | openWritable c l presented replay =>
      refine whenHeld_keepsAudience ((answer_host _ _ _).symm ▸ ?_)
      exact (openWritable_opens w c l presented replay).keepsAudience
  | openReader c l =>
      exact whenHeld_keepsAudience
        ((answer_host _ _ _).symm ▸ (openReader_opens w c l).keepsAudience)
  | tellCache c l wasFenced =>
      exact whenHeld_keepsAudience (tellCache_keepsAudience w c l wasFenced)
  | createHandle l key ack =>
      refine (answer_host _ _ _).symm ▸ ?_
      rcases hcreate : w.createHandle l ⟨key⟩ ack with ⟨e | made, w'⟩
      · exact (createHandle_error hcreate).keepsAudience
      · obtain ⟨-, hmade, hcaches⟩ := createHandle_ok hcreate
        exact keepsAudience_of_eq hmade.tells.subscribers hcaches hmade.observers
  | createReader l =>
      refine (answer_host _ _ _).symm ▸ ?_
      rcases hcreate : w.createReader l with ⟨e | made, w'⟩
      · exact (createReader_error hcreate).keepsAudience
      · obtain ⟨-, -, hstore, honly⟩ := createReader_ok hcreate
        exact keepsAudience_of_eq (congrArg Store.subscribers hstore) honly.caches honly.observers
  | use handle call =>
      exact whenHeld_keepsAudience
        ((answer_host _ _ _).symm ▸ (use_steadyCall w handle call).keepsAudience)
  | fence handle path thread =>
      exact whenHeld_keepsAudience
        ((answer_host _ _ _).symm ▸ (fence_fences w path thread handle).keepsAudience)
  | log path thread entry ack label =>
      exact whenHeld_keepsAudience
        ((answer_host _ _ _).symm ▸ (submit_fences path w thread entry ack _).keepsAudience)
  | releaseJournal id =>
      exact whenHeld_keepsAudience (fences_holdsOfFencing.releaseJournal w id).keepsAudience
  | completeNext id code => exact (fences_holdsOfFencing.completeNext w id code).keepsAudience
  | completeAll id code =>
      exact (fences_holdsOfFencing.releases.completeUpTo id code _ w).keepsAudience
  | dropNext id => exact (fences_holdsOfFencing.dropNext w id).keepsAudience
  | _ => exact keepsAudience_of_eq rfl rfl rfl

/-- Somebody subscribes who is known from then on. -/
theorem gathers_of_join {joining : Subscriber}
    (hsubscribers : w'.store.subscribers = w.store.subscribers ++ [joining])
    (hmet : ∀ who, w'.hasMet who = true ↔ w.hasMet who = true ∨ who = joining)
    (hlost : ∀ who, w.hasMet who = true → w'.isPresent who = true → w.isPresent who = true) :
    Gathers [joining] w w' where
  met who h := (hmet who).mpr (Or.inl h)
  lost := hlost
  joined_met who hwho := (hmet who).mpr (Or.inr (List.mem_singleton.mp hwho))
  sublist := by simp [hsubscribers]
  kept := by rw [hsubscribers]

/-- Letting go of somebody brings nobody back. -/
theorem gathers_of_release (hstore : w'.store = w.store)
    (hmet : ∀ who, w'.hasMet who = w.hasMet who)
    (hlost : ∀ who, w'.isPresent who = true → w.isPresent who = true) : Gathers [] w w' where
  met who h := (hmet who).trans h
  lost who _ := hlost who
  joined_met := by simp
  sublist := by simp [hstore]
  kept := by rw [hstore, List.append_nil]

theorem Gathers.thenKeeps {joined : List Subscriber} (h : Gathers joined w w')
    (h' : KeepsAudience w' w'') : Gathers joined w w'' where
  met who hmet := (h'.hasMet who).trans (h.met who hmet)
  lost who hmet hpresent := h.lost who hmet (by rwa [h'.isPresent] at hpresent)
  joined_met who hwho := (h'.hasMet who).trans (h.joined_met who hwho)
  sublist := h'.subscribers ▸ h.sublist
  kept := by rw [h'.subscribers, h'.isPresent, h.kept]

theorem StoreOnly.isPresent (h : StoreOnly w w') : w'.isPresent = w.isPresent := by
  funext who
  cases who with
  | cache c => exact congrArg (Arena.holds · c) h.caches
  | observer o => exact congrArg (Arena.holds · o) h.observers

theorem StoreOnly.hasMet (h : StoreOnly w w') : w'.hasMet = w.hasMet := by
  funext who
  cases who with
  | cache c => exact congrArg (fun arena => decide (c < Arena.next arena)) h.caches
  | observer o => exact congrArg (fun arena => decide (o < Arena.next arena)) h.observers

/-- A removal that succeeds answers the bit that the ledger had and who is to be told of it. -/
theorem removal_ok {access : Access} {wasFenced : Bool} {subscribers : List Subscriber}
    (h : w.removal access l = (.ok (wasFenced, subscribers), w')) :
    StoreOnly w w' ∧ w.store.Removes l w'.store ∧ wasFenced = w.store.holdsFenced l ∧
      subscribers = w.store.subscribers.filter w.isPresent ∧
      w'.store.subscribers = subscribers := by
  obtain ⟨hact, honly⟩ := send_ok h
  exact ⟨honly, Store.remove_spec hact⟩

/-- A removal drops the subscriptions of those who are gone, and adds none. -/
theorem removal_gathers (w : Host) (access : Access) (l : LedgerId) :
    Gathers [] w (w.removal access l).2 := by
  rcases hremoval : w.removal access l with ⟨e | ⟨wasFenced, subscribers⟩, w'⟩
  · exact (send_error hremoval).keepsAudience.gathers
  · obtain ⟨honly, -, -, hfilter, hsubscribers⟩ := removal_ok hremoval
    refine ⟨fun who hmet => ?_, fun who _ hpresent => ?_, by simp, ?_, ?_⟩
    · rwa [honly.hasMet]
    · rwa [honly.isPresent] at hpresent
    · rw [hsubscribers, hfilter, List.append_nil]
      exact List.filter_sublist
    · rw [hsubscribers, hfilter, honly.isPresent, List.append_nil, List.filter_filter]
      simp

theorem remove_eq_removal (w : Host) (access : Access) (l : LedgerId) :
    w.remove access l = match w.removal access l with
      | (.error e, w') => (.error e, w')
      | (.ok (wasFenced, subscribers), w') =>
          (.ok (), subscribers.foldl (tellSubscriber l wasFenced) w') := rfl

/-- What subscribers do when they are told adds no subscription. -/
theorem remove_gathers (w : Host) (access : Access) (l : LedgerId) :
    Gathers [] w (w.remove access l).2 := by
  have hremoved := removal_gathers w access l
  rw [remove_eq_removal]
  split
  next heq => rwa [heq] at hremoved
  next heq =>
    rw [heq] at hremoved
    exact hremoved.thenKeeps (tellSubscribers_keepsAudience l _ _ _)

/-- An observer subscribes with the number that it gets. -/
theorem observe_gathers (w : Host) (observer : Observer) :
    Gathers [.observer w.observers.next] w (w.perform (.observe observer)).2 := by
  refine gathers_of_join rfl (fun who => ?_) fun who hmet hpresent => ?_
  · cases who with
    | cache c => exact (or_iff_left (by simp)).symm
    | observer o =>
        change decide (o < (w.observers.add observer).next) = true ↔
          decide (o < w.observers.next) = true ∨ Subscriber.observer o = .observer w.observers.next
        simp only [Arena.next_add, decide_eq_true_eq, Subscriber.observer.injEq]
        omega
  · cases who with
    | cache c => exact hpresent
    | observer o => exact Arena.holds_of_holds_add (of_decide_eq_true hmet) hpresent

/-- A cache subscribes with the number that it gets. -/
theorem createCache_gathers (w : Host) (config : Config) :
    Gathers [.cache w.caches.next] w (w.perform (.createCache config)).2 := by
  refine gathers_of_join rfl (fun who => ?_) fun who hmet hpresent => ?_
  · cases who with
    | cache c =>
        change decide (c < (w.caches.add (.create config)).next) = true ↔
          decide (c < w.caches.next) = true ∨ Subscriber.cache c = .cache w.caches.next
        simp only [Arena.next_add, decide_eq_true_eq, Subscriber.cache.injEq]
        omega
    | observer o => exact (or_iff_left (by simp)).symm
  · cases who with
    | cache c => exact Arena.holds_of_holds_add (of_decide_eq_true hmet) hpresent
    | observer o => exact hpresent

/-- An observer that is let go is not there any more, and still on the list. -/
theorem unobserve_gathers (w : Host) (id : Nat) :
    Gathers [] w { w with observers := w.observers.release id } := by
  refine gathers_of_release rfl (fun who => ?_) fun who hpresent => ?_
  · cases who <;> simp [hasMet]
  · cases who with
    | cache c => exact hpresent
    | observer o => exact Arena.holds_of_holds_release hpresent

/-- A cache that is let go is not there any more, and still on the list. -/
theorem releaseCache_gathers (w : Host) (id : Nat) :
    Gathers [] w { w with caches := w.caches.release id } := by
  refine gathers_of_release rfl (fun who => ?_) fun who hpresent => ?_
  · cases who <;> simp [hasMet]
  · cases who with
    | cache c => exact Arena.holds_of_holds_release hpresent
    | observer o => exact hpresent

theorem whenHeld_gathers {held : Bool} {r : Except Failure Answer × Host}
    (h : Gathers [] w r.2) : Gathers [] w (w.whenHeld held r).2 :=
  whenHeld_host (Idle.refl w).keepsAudience.gathers h

/-- Two operations make a subscriber, and it subscribes once. -/
theorem perform_gathers (w : Host) (op : Op) :
    Gathers (w.subscribing (.act op)) w (w.perform op).2 := by
  cases op with
  | observe observer => exact observe_gathers w observer
  | createCache config => exact createCache_gathers w config
  | unobserve id => exact whenHeld_gathers (unobserve_gathers w id)
  | releaseCache id => exact whenHeld_gathers (releaseCache_gathers w id)
  | remove access l =>
      unfold perform
      rw [answer_host]
      exact remove_gathers w access l
  | _ => exact (perform_keepsAudience w rfl).gathers

/-- Whatever happens adds those who subscribe, and keeps everybody who is there. -/
theorem happen_gathers (w : Host) (next : Happening) :
    Gathers (w.subscribing next) w (w.happen next) := by
  cases next with
  | act op => exact perform_gathers w op
  | subscribe who =>
      change Gathers (if w.hasMet who then [who] else []) w
        (if w.hasMet who then w.subscribe who else w)
      split
      next hmet =>
        refine ⟨fun _ => id, fun _ _ => id, fun x hx => ?_, .refl _, rfl⟩
        rw [List.mem_singleton.mp hx]
        exact hmet
      next => exact (Idle.refl w).keepsAudience.gathers
  | remove access l => exact removal_gathers w access l
  | tell who l wasFenced => exact (tellSubscriber_keepsAudience w l wasFenced who).gathers
  | decide h => exact (decideFence_decides w h).fences.keepsAudience.gathers
  | handOn path t h o =>
      exact (submitMarker_fences w path t h o).keepsAudience.gathers
  | pass nanos => exact (pass_idle w nanos).keepsAudience.gathers

/-! ### Subscriptions over a course -/

/-- The store has every subscription of those who are there, in order, and none that was
never made. -/
structure Enrolls (subscribed : List Subscriber) (w : Host) : Prop where
  met : ∀ who ∈ subscribed, w.hasMet who = true
  sublist : w.store.subscribers.Sublist subscribed
  kept : w.store.subscribers.filter w.isPresent = subscribed.filter w.isPresent

variable {subscribed joined : List Subscriber}

theorem start_enrolls (faults : Option FaultPlan) : Enrolls [] (start faults) :=
  ⟨by simp, .refl _, rfl⟩

/-- Those who join come behind those who are enrolled. -/
theorem Enrolls.gathers (h : Enrolls subscribed w) (hjoined : Gathers joined w w') :
    Enrolls (subscribed ++ joined) w' where
  met who hwho :=
    (List.mem_append.mp hwho).elim (fun hbefore => hjoined.met who (h.met who hbefore))
      (hjoined.joined_met who)
  sublist := hjoined.sublist.trans (h.sublist.append_right joined)
  kept := by
    -- those who are still there were there before
    have hstill : ∀ {who}, who ∈ subscribed → w'.isPresent who = true → w.isPresent who = true :=
      fun hwho => hjoined.lost _ (h.met _ hwho)
    have hnarrow : ∀ {xs : List Subscriber}, xs ⊆ subscribed →
        xs.filter w'.isPresent = (xs.filter w.isPresent).filter w'.isPresent := by
      intro xs hxs
      rw [List.filter_filter]
      refine List.filter_congr fun who hwho => ?_
      cases hpresent : w'.isPresent who with
      | true => simp [hstill (hxs hwho) hpresent]
      | false => rfl
    rw [hjoined.kept, List.filter_append, List.filter_append, hnarrow h.sublist.subset, h.kept,
      ← hnarrow (List.Subset.refl _)]

/-- After all that happened, the list has everybody who subscribed and is still there. -/
theorem Enrolls.afterAll (h : Enrolls subscribed w) (course : List Happening) :
    Enrolls (subscribed ++ w.subscriptions course) (w.afterAll course) := by
  induction course generalizing w subscribed with
  | nil => simpa [subscriptions, Host.afterAll] using h
  | cons first course ih =>
      rw [subscriptions, ← List.append_assoc]
      exact ih (h.gathers (happen_gathers w first))

theorem afterAll_lost {who : Subscriber} (hmet : w.hasMet who = true) (course : List Happening)
    (hpresent : (w.afterAll course).isPresent who = true) : w.isPresent who = true := by
  induction course generalizing w with
  | nil => exact hpresent
  | cons first course ih =>
      have hfirst := happen_gathers w first
      exact hfirst.lost who hmet (ih (hfirst.met who hmet) hpresent)

end Host

end FencedLedger
