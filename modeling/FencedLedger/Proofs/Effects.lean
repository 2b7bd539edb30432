import FencedLedger.Proofs.FencingSteps
import FencedLedger.Proofs.Telling

/-!
# What an operation can do

Every operation has one of a few effects on a host. Properties of runs follow
from the effects, so none of them looks at an operation again. What fencing does
to outcomes and journals is told apart elsewhere.
-/

namespace FencedLedger

/-- Whether an operation is about fencing, journals or outcomes. -/
def Op.concernsFencing : Op → Bool
  | .fence .. | .createMemoryJournal | .createScriptedJournal _ | .releaseJournal _ | .log ..
  | .shutDown _ | .setMode .. | .queueFailure .. | .completeNext .. | .completeAll ..
  | .dropNext _ | .createOutcome _ => true
  | _ => false

/-- Whether an operation tells caches of a deletion. -/
def Op.tellsDeletion : Op → Bool
  | .remove .. | .tellCache .. => true
  | _ => false

/-- Whether an operation passes calls on to the store. -/
def Op.callsStore : Op → Bool
  | .request .. | .append .. | .use .. => true
  | _ => false

namespace Host

variable {w w' : Host}

/-- The ledger that an operation removes from the store, if it does. -/
def removed? (w : Host) : Op → Option LedgerId
  | .remove access l =>
      match (w.remove access l).1 with
      | .ok () => some l
      | .error _ => none
  | _ => none

/-- Caches and observers may come and go, nothing else changes. -/
structure Members (w w' : Host) : Prop where
  background : Background w w'
  next_le : w.caches.next ≤ w'.caches.next
  ledgers : w'.store.ledgers = w.store.ledgers
  handles : w'.handles = w.handles
  readers : w'.readers = w.readers
  outcomes : w'.outcomes = w.outcomes
  journals : w'.journals = w.journals
  subscribed : (∀ c, w.caches.holds c = true → Subscriber.cache c ∈ w.store.subscribers) →
    ∀ c, w'.caches.holds c = true → Subscriber.cache c ∈ w'.store.subscribers
  /-- New caches are empty. -/
  caches : ∀ {c y}, w'.caches.get? c = some y →
    w.caches.get? c = some y ∨ w.caches.next ≤ c ∧ ∃ config, y = .create config

/-- What an operation does to a host, and which ledger it removes. -/
inductive Effect (op : Op) (w w' : Host) : (removed : Option LedgerId) → Prop where
  | idle (h : Idle w w') : Effect op w w' none
  | steady (hop : op.callsStore = true) (h : SteadyCall w w') : Effect op w w' none
  | fences (hop : op.concernsFencing = true) (h : Fences w w') : Effect op w w' none
  | creates {l : LedgerId} {key : MasterKey} (only : StoreOnly w w')
      (creates : Store.Creates l key w.store w'.store) : Effect op w w' none
  | makesHandle {l : LedgerId} {key : MasterKey} (h : MakesHandle l key w w')
      (caches : w'.caches = w.caches) : Effect op w w' none
  | makesReader {l : LedgerId} (only : StoreOnly { w with readers := w.readers.add l } w')
      (store : w'.store = w.store) : Effect op w w' none
  | opens {c : Nat} {l : LedgerId} {presented : Bytes} (h : Opens c l presented w w') :
      Effect op w w' none
  | opensReader {c : Nat} {l : LedgerId} (h : OpensReader c l w w') : Effect op w w' none
  | drops {c : Nat} {l : LedgerId} {wasFenced : Bool} (hop : op = .tellCache c l wasFenced)
      (h : Drops c l w w') : Effect op w w' none
  | members (h : Members w w') : Effect op w w' none
  /-- The ledger is removed, and the subscribers are told. -/
  | removes {access : Access} {l : LedgerId} {wasFenced : Bool} {w₁ : Host}
      (hop : op = .remove access l) (only : StoreOnly w w₁)
      (removes : w.store.Removes l w₁.store)
      (subscribers : w₁.store.subscribers = w.store.subscribers.filter w₁.isPresent)
      (told : w' = w₁.store.subscribers.foldl (tellSubscriber l wasFenced) w₁) :
      Effect op w w' (some l)

theorem answer_host {ε α : Type} (wrap : ε → Failure) (f : α → Answer) (r : Except ε α × Host) :
    (answer wrap f r).2 = r.2 := by
  obtain ⟨a | e, w⟩ := r <;> rfl

theorem answer_isOk {ε α : Type} (wrap : ε → Failure) (f : α → Answer)
    (r : Except ε α × Host) : (answer wrap f r).1.isOk = r.1.isOk := by
  rcases r with ⟨e | a, w⟩ <;> rfl

theorem answer_ok {ε α : Type} {wrap : ε → Failure} {f : α → Answer} {r : Except ε α × Host}
    {a : Answer} (h : (answer wrap f r).1 = .ok a) : ∃ x, r.1 = .ok x ∧ f x = a := by
  obtain ⟨e | x, w⟩ := r
  · cases h
  · exact ⟨x, rfl, Except.ok.inj h⟩

theorem answer_of_ok {ε α : Type} {r : Except ε α × Host} {x : α} (h : r.1 = .ok x)
    (wrap : ε → Failure) (f : α → Answer) : (answer wrap f r).1 = .ok (f x) := by
  obtain ⟨answer, w⟩ := r
  cases h
  rfl

theorem answer_of_error {ε α : Type} {r : Except ε α × Host} {e : ε} (h : r.1 = .error e)
    (wrap : ε → Failure) (f : α → Answer) : (answer wrap f r).1 = .error (wrap e) := by
  obtain ⟨answer, w⟩ := r
  cases h
  rfl

theorem whenHeld_ok {held : Bool} {r : Except Failure Answer × Host} {a : Answer}
    (h : (w.whenHeld held r).1 = .ok a) : held = true ∧ r.1 = .ok a := by
  unfold whenHeld at h
  split at h
  next hheld => exact ⟨hheld, h⟩
  next => cases h

/-- What holds of the host, and of the host behind the call, holds either way. -/
theorem whenHeld_host {P : Host → Prop} {held : Bool} {r : Except Failure Answer × Host}
    (hw : P w) (h : P r.2) : P (w.whenHeld held r).2 := by
  unfold whenHeld
  split
  next => exact h
  next => exact hw

theorem whenHeld_effect {op : Op} {held : Bool} {r : Except Failure Answer × Host}
    (h : held = true → Effect op w r.2 none) : Effect op w (w.whenHeld held r).2 none := by
  unfold whenHeld
  split
  next hheld => exact h hheld
  next => exact .idle (.refl w)

/-! ### Caches and observers -/

/-- A cache that is created subscribes and holds nothing. -/
theorem createCache_members (w : Host) (config : Config) :
    Members w (w.perform (.createCache config)).2 where
  background := .of_eq rfl rfl rfl
  next_le := by
    change _ ≤ (w.caches.add (.create config)).next
    rw [Arena.next_add]
    exact Nat.le_succ _
  ledgers := rfl
  handles := rfl
  readers := rfl
  outcomes := rfl
  journals := rfl
  subscribed hall c hheld := by
    change Subscriber.cache c ∈ w.store.subscribers ++ [.cache w.caches.next]
    change ((w.caches.add (.create config)).get? c).isSome = true at hheld
    rw [Arena.get?_add] at hheld
    split at hheld
    next hnext => simp [hnext]
    next => exact List.mem_append_left _ (hall c hheld)
  caches {c y} hy := by
    change (w.caches.add (.create config)).get? c = some y at hy
    rw [Arena.get?_add] at hy
    split at hy
    next hnext =>
      cases hy
      exact Or.inr ⟨Nat.le_of_eq hnext.symm, config, rfl⟩
    next => exact Or.inl hy

/-- Letting one cache go leaves the others as they are. -/
theorem releaseCache_members (w : Host) (id : Nat) :
    Members w { w with caches := w.caches.release id } where
  background := .of_eq rfl rfl rfl
  next_le := Nat.le_of_eq (Arena.next_release _ _).symm
  ledgers := rfl
  handles := rfl
  readers := rfl
  outcomes := rfl
  journals := rfl
  subscribed hall c hheld := by
    refine hall c ?_
    change ((w.caches.release id).get? c).isSome = true at hheld
    rw [Arena.get?_release] at hheld
    split at hheld
    next => cases hheld
    next => exact hheld
  caches {c y} hy := by
    change (w.caches.release id).get? c = some y at hy
    rw [Arena.get?_release] at hy
    split at hy
    next => cases hy
    next => exact Or.inl hy

/-! ### Operations -/

/-- A deletion removes its ledger if it succeeds, and its caches drop what they hold of it. -/
theorem remove_effect (w : Host) (access : Access) (l : LedgerId) :
    Effect (.remove access l) w (w.remove access l).2 (w.removed? (.remove access l)) := by
  unfold removed?
  rcases remove_cases w access l with ⟨⟨e, herror⟩, hidle⟩ |
    ⟨w₁, wasFenced, hok, honly, hremoves, hsubscribers, htold⟩
  · dsimp only
    rw [herror]
    exact .idle hidle
  · dsimp only
    rw [hok]
    exact .removes rfl honly hremoves hsubscribers htold

/-- A handle outside of all caches may create its ledger, and is cached nowhere. -/
theorem createHandle_effect (op : Op) (w : Host) (l : LedgerId) (key : MasterKey) (ack : Bool) :
    Effect op w (w.createHandle l key ack).2 none := by
  cases hcreate : w.createHandle l key ack with
  | mk answer w₁ =>
      cases answer with
      | error e => exact .idle (createHandle_error hcreate)
      | ok made =>
          obtain ⟨-, hmade, hcaches⟩ := createHandle_ok hcreate
          exact .makesHandle hmade hcaches

/-- A reader outside of all caches changes nothing but that it is there. -/
theorem createReader_effect (op : Op) (w : Host) (l : LedgerId) :
    Effect op w (w.createReader l).2 none := by
  cases hcreate : w.createReader l with
  | mk answer w₁ =>
      cases answer with
      | error e => exact .idle (createReader_error hcreate)
      | ok made =>
          obtain ⟨-, -, hstore, honly⟩ := createReader_ok hcreate
          exact .makesReader honly hstore

/-- Every operation has one of the effects. -/
theorem perform_effect (w : Host) (op : Op) :
    Effect op w (w.perform op).2 (w.removed? op) := by
  cases op with
  | request access r =>
      unfold perform
      rw [answer_host]
      -- of all requests, only the first binding of a key creates a ledger
      rcases request_cases w access r with hsteady | ⟨l, secret, -, honly, hcreates⟩
      · exact .steady rfl hsteady
      · exact .creates honly hcreates
  | append access entry =>
      unfold perform
      rw [answer_host]
      exact .steady rfl (append_steadyCall w access entry)
  | remove access l =>
      unfold perform
      rw [answer_host]
      exact remove_effect w access l
  | observe observer =>
      -- who listens from now on is told last, so every cache is told as before
      exact .members ⟨.of_eq rfl rfl rfl, Nat.le_refl _, rfl, rfl, rfl, rfl, rfl,
        fun hall c hheld => List.mem_append_left _ (hall c hheld), Or.inl⟩
  | unobserve id =>
      exact whenHeld_effect fun _ =>
        .members ⟨.of_eq rfl rfl rfl, Nat.le_refl _, rfl, rfl, rfl, rfl, rfl, fun hall => hall,
          Or.inl⟩
  | createCache config => exact .members (createCache_members w config)
  | releaseCache id => exact whenHeld_effect fun _ => .members (releaseCache_members w id)
  | openWritable c l presented replay =>
      refine whenHeld_effect fun _ => ?_
      rw [answer_host]
      exact .opens (openWritable_opens w c l presented replay)
  | openReader c l =>
      refine whenHeld_effect fun _ => ?_
      rw [answer_host]
      exact .opensReader (openReader_opens w c l)
  | tellCache c l wasFenced =>
      exact whenHeld_effect fun _ => .drops rfl (tellCache_drops w c l wasFenced)
  | createHandle l key ack =>
      unfold perform
      rw [answer_host]
      exact createHandle_effect _ w l ⟨key⟩ ack
  | createReader l =>
      unfold perform
      rw [answer_host]
      exact createReader_effect _ w l
  | use handle call =>
      refine whenHeld_effect fun _ => ?_
      rw [answer_host]
      exact .steady rfl (use_steadyCall w handle call)
  | fence handle path thread =>
      refine whenHeld_effect fun _ => ?_
      rw [answer_host]
      exact .fences rfl (fence_fences w path thread handle)
  | log path thread entry ack label =>
      refine whenHeld_effect fun _ => ?_
      rw [answer_host]
      exact .fences rfl (submit_fences path w thread entry ack _)
  | releaseJournal id =>
      exact whenHeld_effect fun _ => .fences rfl (fences_holdsOfFencing.releaseJournal w id)
  | completeNext id code => exact .fences rfl (fences_holdsOfFencing.completeNext w id code)
  | completeAll id code =>
      exact .fences rfl (fences_holdsOfFencing.releases.completeUpTo id code _ w)
  | dropNext id => exact .fences rfl (fences_holdsOfFencing.dropNext w id)
  | createMemoryJournal | createScriptedJournal mode | shutDown id | setMode id mode
  | queueFailure id cause | createOutcome result =>
      exact .fences rfl (fences_of_eq (.of_eq rfl rfl rfl) rfl rfl rfl rfl rfl)
  | planFault call fault | clearFaults =>
      refine .idle ⟨⟨⟨Nat.le_refl _, fun hnone => ?_⟩, rfl⟩, rfl, rfl, rfl, rfl, rfl, rfl, rfl⟩
      exact congrArg (Option.map _) hnone
  | raise thread | takeInterrupt thread | startWorker =>
      exact .idle ⟨.of_eq rfl rfl rfl, rfl, rfl, rfl, rfl, rfl, rfl, rfl⟩

/-! ### Runs -/

theorem run_append (w : Host) (ops ops' : List Op) :
    w.run (ops ++ ops') = (w.run ops).run ops' := by
  unfold run
  exact List.foldl_append

theorem run_concat (w : Host) (ops : List Op) (op : Op) :
    w.run (ops ++ [op]) = ((w.run ops).perform op).2 := run_append w ops [op]

/-- An element of a longer list is the last one, or it was there before. -/
theorem concat_eq_append_cons {α : Type} {xs before after : List α} {x y : α}
    (h : xs ++ [x] = before ++ y :: after) :
    after = [] ∧ xs = before ∧ x = y ∨ ∃ rest, after = rest ++ [x] ∧ xs = before ++ y :: rest := by
  rcases List.eq_nil_or_concat after with rfl | ⟨rest, last, rfl⟩
  · obtain ⟨rfl, hlast⟩ := List.append_inj' h rfl
    exact Or.inl ⟨rfl, rfl, List.singleton_inj.mp hlast⟩
  · rw [List.concat_eq_append, ← List.cons_append, ← List.append_assoc] at h
    obtain ⟨rfl, hlast⟩ := List.append_inj' h rfl
    cases hlast
    exact Or.inr ⟨rest, List.concat_eq_append, rfl⟩

theorem filterMap_singleton {α β : Type} (f : α → Option β) (x : α) :
    [x].filterMap f = (f x).toList := by
  cases h : f x <;> simp [h]

/-! ### Effects on the clock and on watchers -/

/-- Watchers are told only by calls on the store. -/
theorem Effect.steadyCall_or_background {op : Op} {removed : Option LedgerId}
    (h : Effect op w w' removed) :
    op.callsStore = true ∧ SteadyCall w w' ∨ Background w w' := by
  cases h with
  | steady hop h => exact Or.inl ⟨hop, h⟩
  | idle h => exact Or.inr h.background
  | fences _ h => exact Or.inr h.background
  | creates only _ => exact Or.inr only.background
  | makesHandle h _ => exact Or.inr h.background
  | makesReader only _ => exact Or.inr (only.background.congr rfl rfl)
  | opens h => exact Or.inr h.tells.background
  | opensReader h =>
      cases h with
      | idle h => exact Or.inr h.background
      | makes _ only _ => exact Or.inr (only.background.congr rfl rfl)
  | drops _ h => exact Or.inr h.background
  | members h => exact Or.inr h.background
  | removes _ only _ _ told =>
      exact Or.inr (only.background.trans (told ▸ tellSubscribers_tells _ _ _ _).background)

theorem Effect.onward {op : Op} {removed : Option LedgerId} (h : Effect op w w' removed) :
    Onward w w' := by
  rcases h.steadyCall_or_background with ⟨-, hsteady⟩ | hbackground
  · exact hsteady.onward
  · exact hbackground.toOnward

theorem Effect.notified {op : Op} {removed : Option LedgerId} (h : Effect op w w' removed)
    (hop : op.callsStore = false) : w'.notified = w.notified := by
  rcases h.steadyCall_or_background with ⟨hcalls, -⟩ | hbackground
  · rw [hop] at hcalls
    cases hcalls
  · exact hbackground.notified

/-! ### Effects on fencing -/

/-- Handles may have been made; outcomes and journals are as they were. -/
structure Calm (w w' : Host) : Prop where
  handles : HandlesGrow w.handles w'.handles
  outcomes : w'.outcomes = w.outcomes
  journals : w'.journals = w.journals

theorem StoreOnly.calm (h : StoreOnly w w') : Calm w w' :=
  ⟨.of_eq h.handles, h.outcomes, h.journals⟩

theorem Tells.calm {l : LedgerId} (h : Tells l w w') : Calm w w' :=
  ⟨h.handles, h.outcomes, h.journals⟩

variable {op : Op} {removed : Option LedgerId}

/-- Only operations about fencing disturb outcomes and journals. -/
theorem Effect.fences_or_calm (h : Effect op w w' removed) :
    op.concernsFencing = true ∧ Fences w w' ∨ Calm w w' := by
  cases h with
  | idle h => exact Or.inr h.storeOnly.calm
  | steady _ h => exact Or.inr ⟨.of_eq h.handles, h.outcomes, h.journals⟩
  | fences hop h => exact Or.inl ⟨hop, h⟩
  | creates only _ => exact Or.inr only.calm
  | makesHandle h _ => exact Or.inr h.tells.calm
  | makesReader only _ => exact Or.inr ⟨.of_eq only.handles, only.outcomes, only.journals⟩
  | opens h => exact Or.inr h.tells.calm
  | opensReader h =>
      cases h with
      | idle h => exact Or.inr h.storeOnly.calm
      | makes _ only _ => exact Or.inr ⟨.of_eq only.handles, only.outcomes, only.journals⟩
  | drops _ h => exact Or.inr h.tells.calm
  | members h => exact Or.inr ⟨.of_eq h.handles, h.outcomes, h.journals⟩
  | removes _ only _ _ told =>
      have htells := told ▸ tellSubscribers_tells _ _ _ _
      exact Or.inr ⟨(HandlesGrow.of_eq only.handles).trans htells.handles,
        htells.outcomes.trans only.outcomes, htells.journals.trans only.journals⟩

theorem perform_calm (w : Host) (hop : op.concernsFencing = false) :
    Calm w (w.perform op).2 := by
  rcases (perform_effect w op).fences_or_calm with ⟨hfencing, -⟩ | hcalm
  · rw [hop] at hfencing
    cases hfencing
  · exact hcalm

/-- An operation that neither calls on the store nor removes a ledger sets bits of ledgers,
if it is about fencing, or creates ledgers that are not fenced. -/
theorem Effect.fences_or_grows (h : Effect op w w' none) (hcalls : op.callsStore = false) :
    op.concernsFencing = true ∧ w.store.OnlyFences w'.store ∨
      w.store.Grows w'.store ∧ ∀ l, w'.store.holdsFenced l = w.store.holdsFenced l := by
  have hsame : w'.store.ledgers = w.store.ledgers → w.store.Grows w'.store ∧
      ∀ l, w'.store.holdsFenced l = w.store.holdsFenced l := fun hledgers =>
    ⟨Store.grows_of_eq hledgers, fun l => by rw [Store.holdsFenced, hledgers, Store.holdsFenced]⟩
  cases h with
  | idle h => exact Or.inr (hsame (congrArg Store.ledgers h.store))
  | steady hop _ => cases hcalls.symm.trans hop
  | fences hop h => exact Or.inl ⟨hop, h.store⟩
  | creates _ creates => exact Or.inr ⟨creates.grows, creates.fenced⟩
  | makesHandle h _ => exact Or.inr ⟨h.tells.grows, h.tells.fenced⟩
  | makesReader _ store => exact Or.inr (hsame (congrArg Store.ledgers store))
  | opens h => exact Or.inr ⟨h.tells.grows, h.tells.fenced⟩
  | opensReader h =>
      cases h with
      | idle h => exact Or.inr (hsame (congrArg Store.ledgers h.store))
      | makes _ _ store => exact Or.inr (hsame (congrArg Store.ledgers store))
  | drops _ h => exact Or.inr (hsame (congrArg Store.ledgers h.store))
  | members h => exact Or.inr (hsame h.ledgers)

/-- The same ledgers under the same keys, and no fenced bit cleared, whoever
subscribes. -/
structure KeepsLedgers (s s' : Store) : Prop where
  keys : ∀ l, s'.keyOf? l = s.keyOf? l
  fenced : ∀ l, s.holdsFenced l = true → s'.holdsFenced l = true

theorem keepsLedgers_of_eq {s s' : Store} (h : s'.ledgers = s.ledgers) : KeepsLedgers s s' where
  keys l := by rw [Store.keyOf?, h, Store.keyOf?]
  fenced l hl := by rwa [Store.holdsFenced, h]

/-- An operation that may fence ledgers creates and removes none. One that may
create ledgers fences none, also not the ones that it creates. -/
theorem Effect.keepsLedgers_or_bits (h : Effect op w w' removed) :
    removed = none ∧ KeepsLedgers w.store w'.store ∨
      ∀ l, w'.store.holdsFenced l =
        if removed = some l then false else w.store.holdsFenced l := by
  cases h with
  | idle h => exact Or.inl ⟨rfl, keepsLedgers_of_eq (by rw [h.store])⟩
  | steady _ h => exact Or.inl ⟨rfl, h.store.keys, h.store.fenced⟩
  | fences _ h => exact Or.inl ⟨rfl, h.store.keys, h.store.fenced⟩
  | creates _ creates => exact Or.inr creates.fenced
  | makesHandle h _ => exact Or.inr h.tells.fenced
  | makesReader _ store => exact Or.inl ⟨rfl, keepsLedgers_of_eq (by rw [store])⟩
  | opens h => exact Or.inr h.tells.fenced
  | opensReader h =>
      cases h with
      | idle h => exact Or.inl ⟨rfl, keepsLedgers_of_eq (by rw [h.store])⟩
      | makes _ _ store => exact Or.inl ⟨rfl, keepsLedgers_of_eq (by rw [store])⟩
  | drops _ h => exact Or.inr h.tells.fenced
  | members h => exact Or.inl ⟨rfl, keepsLedgers_of_eq h.ledgers⟩
  | removes _ only removes _ told =>
      have htells := told ▸ tellSubscribers_tells _ _ _ _
      refine Or.inr fun l => ?_
      rw [htells.fenced, removes.fenced]
      simp

/-- Only the removal of its ledger clears a fenced bit. -/
theorem Effect.fenced_kept {l : LedgerId} (h : Effect op w w' removed) (hkept : removed ≠ some l)
    (hfenced : w.store.holdsFenced l = true) : w'.store.holdsFenced l = true := by
  rcases h.keepsLedgers_or_bits with ⟨-, hkeeps⟩ | hbits
  · exact hkeeps.fenced l hfenced
  · rw [hbits, if_neg hkept]
    exact hfenced

/-- A ledger that an operation creates is not fenced. -/
theorem Effect.created_unfenced {l : LedgerId} (h : Effect op w w' removed)
    (hheld : (w'.store.keyOf? l).isSome = true)
    (hnew : w.store.keyOf? l = none ∨ removed = some l) : w'.store.holdsFenced l = false := by
  rcases h.keepsLedgers_or_bits with ⟨hnone, hkeeps⟩ | hbits
  · rcases hnew with habsent | hremoved
    · rw [hkeeps.keys, habsent] at hheld
      cases hheld
    · rw [hnone] at hremoved
      cases hremoved
  · rw [hbits]
    split
    next => rfl
    next hkept => exact Store.holdsFenced_of_absent (hnew.resolve_right hkept)

/-- A handle that a marker was newly decided for has its ledger fenced. -/
theorem Effect.newly_started {h : Nat} {y : Handle} (heffect : Effect op w w' removed)
    (hy : w'.handles.get? h = some y) (hstarted : y.started = true) :
    w'.store.holdsFenced y.ledger = true ∨
      ∃ x, w.handles.get? h = some x ∧ x.ledger = y.ledger ∧ x.started = true := by
  rcases heffect.fences_or_calm with ⟨-, hfences⟩ | hcalm
  · cases hx : w.handles.get? h with
    | none =>
        rw [hfences.absent hx] at hy
        cases hy
    | some x =>
        obtain ⟨z, hz, hledger, -, -, hnew⟩ := hfences.bound hx
        obtain rfl : z = y := Option.some.inj (hz.symm.trans hy)
        rcases hnew hstarted with hbefore | hfenced
        · exact Or.inr ⟨x, rfl, hledger.symm, hbefore⟩
        · exact Or.inl (hledger ▸ hfenced)
  · cases hx : w.handles.get? h with
    | none =>
        have hfresh := (hcalm.handles.fresh hx hy).1
        unfold Handle.started at hstarted
        rw [hfresh] at hstarted
        cases hstarted
    | some x =>
        obtain rfl : x = y := Option.some.inj ((hcalm.handles.kept hx).symm.trans hy)
        exact Or.inr ⟨x, rfl, rfl, hstarted⟩

/-! ### Ledgers created anew -/

variable {l : LedgerId}

/-- After the operation the store holds a ledger that the operation created. -/
def recreates (w : Host) (op : Op) (l : LedgerId) : Prop :=
  (w.perform op).2.store.ledgers.contains l = true ∧
    (w.store.ledgers.contains l = false ∨ w.removed? op = some l)

theorem unfenced_of_recreates (h : w.recreates op l) :
    (w.perform op).2.store.holdsFenced l = false := by
  obtain ⟨hheld, hnew⟩ := h
  rw [Store.contains_eq_isSome_keyOf?] at hheld
  rw [Store.contains_eq_false_iff] at hnew
  exact (perform_effect w op).created_unfenced hheld hnew

/-- A ledger that an operation did not create is as fenced as before, or more. -/
theorem fenced_of_not_recreates (hheld : (w.perform op).2.store.ledgers.contains l = true)
    (hnot : ¬ w.recreates op l) (hfenced : w.store.ledgers.contains l = true →
      w.store.holdsFenced l = true) : (w.perform op).2.store.holdsFenced l = true := by
  -- a ledger that is there was there, or it was created
  have hbefore : w.store.ledgers.contains l = true := by
    cases habsent : w.store.ledgers.contains l with
    | true => rfl
    | false => exact absurd ⟨hheld, Or.inl habsent⟩ hnot
  have hkept : w.removed? op ≠ some l := fun hremoved => hnot ⟨hheld, Or.inr hremoved⟩
  exact (perform_effect w op).fenced_kept hkept (hfenced hbefore)

end Host

end FencedLedger
