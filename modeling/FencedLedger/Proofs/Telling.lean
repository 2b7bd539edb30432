import FencedLedger.Host.Op
import FencedLedger.Proofs.Calls

/-!
# What telling of a deletion changes

Once a ledger is removed from the store, each subscriber is told. A cache drops
its handles of the ledger. An observer may look the ledger up, which can create
it anew, unfenced. Whatever the subscribers do, other ledgers, the subscriptions
and the handles made before stay as they are.
-/

namespace FencedLedger

/-- Handles may have been added, with nothing appended for them yet. -/
structure HandlesGrow (a b : Arena Handle) : Prop where
  kept : ∀ {h x}, a.get? h = some x → b.get? h = some x
  fresh : ∀ {h x}, a.get? h = none → b.get? h = some x → x.latest = none ∧ x.persisted = false

namespace HandlesGrow

variable {a b c : Arena Handle}

theorem refl (a : Arena Handle) : HandlesGrow a a :=
  ⟨id, fun hnone hsome => by rw [hnone] at hsome; cases hsome⟩

theorem of_eq (h : b = a) : HandlesGrow a b := h ▸ refl a

theorem trans (hab : HandlesGrow a b) (hbc : HandlesGrow b c) : HandlesGrow a c where
  kept hx := hbc.kept (hab.kept hx)
  fresh {h x} hnone hx := by
    cases hb : b.get? h with
    | none => exact hbc.fresh hb hx
    | some y =>
        obtain rfl : y = x := Option.some.inj ((hbc.kept hb).symm.trans hx)
        exact hab.fresh hnone hb

/-- A handle that is made takes no number of an old one. -/
theorem add (a : Arena Handle) (l : LedgerId) (key : MasterKey) (ack : Bool) :
    HandlesGrow a (a.add (.create l key ack)) where
  kept hx := Arena.get?_add_of_get? hx _
  fresh {h x} hnone hx := by
    rw [Arena.get?_add] at hx
    split at hx
    next =>
      cases hx
      exact ⟨rfl, rfl⟩
    next =>
      rw [hnone] at hx
      cases hx

end HandlesGrow

namespace Host

variable {w w' w'' : Host} {l : LedgerId}

theorem MakesHandle.handlesGrow {key : MasterKey} (h : MakesHandle l key w w') :
    HandlesGrow w.handles w'.handles := by
  obtain ⟨ack, hadd⟩ := h.handles
  rw [hadd]
  exact .add _ l key ack

/-- Nothing changed but caches and the presence of one ledger, which is not
fenced anew. -/
structure Tells (l : LedgerId) (w w' : Host) : Prop where
  background : Background w w'
  grows : w.store.Grows w'.store
  subscribers : w'.store.subscribers = w.store.subscribers
  keys : ∀ l', l ≠ l' → w'.store.keyOf? l' = w.store.keyOf? l'
  fenced : ∀ l', w'.store.holdsFenced l' = w.store.holdsFenced l'
  handles : HandlesGrow w.handles w'.handles
  readers : w'.readers = w.readers
  outcomes : w'.outcomes = w.outcomes
  journals : w'.journals = w.journals
  observers : w'.observers = w.observers

theorem Tells.trans (h : Tells l w w') (h' : Tells l w' w'') : Tells l w w'' where
  background := h.background.trans h'.background
  grows := h.grows.trans h'.grows
  subscribers := h'.subscribers.trans h.subscribers
  keys l' hne := (h'.keys l' hne).trans (h.keys l' hne)
  fenced l' := (h'.fenced l').trans (h.fenced l')
  handles := h.handles.trans h'.handles
  readers := h'.readers.trans h.readers
  outcomes := h'.outcomes.trans h.outcomes
  journals := h'.journals.trans h.journals
  observers := h'.observers.trans h.observers

theorem Idle.tells (h : Idle w w') : Tells l w w' where
  background := h.background
  grows := h.store ▸ .refl w.store
  subscribers := by rw [h.store]
  keys l' _ := by rw [h.store]
  fenced l' := by rw [h.store]
  handles := .of_eq h.handles
  readers := h.readers
  outcomes := h.outcomes
  journals := h.journals
  observers := h.observers

/-- A handle may have been made, and the ledger with it. -/
theorem MakesHandle.tells {key : MasterKey} (h : MakesHandle l key w w') : Tells l w w' where
  background := h.background
  grows := Store.bindKey_grows h.bound
  subscribers := by
    rcases Store.bindKey_cases h.bound with hcreates | ⟨hsame, -⟩
    · exact hcreates.subscribers
    · rw [hsame]
  keys l' hne := by
    rcases Store.bindKey_cases h.bound with hcreates | ⟨hsame, -⟩
    · rw [hcreates.keys, if_neg hne]
    · rw [hsame]
  fenced l' := by
    rcases Store.bindKey_cases h.bound with hcreates | ⟨hsame, -⟩
    · exact hcreates.fenced l'
    · rw [hsame]
  handles := h.handlesGrow
  readers := h.readers
  outcomes := h.outcomes
  journals := h.journals
  observers := h.observers

theorem Opens.tells {c : Nat} {presented : Bytes} (h : Opens c l presented w w') :
    Tells l w w' := by
  cases h with
  | idle h => exact h.tells
  | makes h _ _ => exact h.tells

/-! ### Caches -/

/-- A cache dropped its handles of a ledger, and nothing else changed. -/
structure Drops (c : Nat) (l : LedgerId) (w w' : Host) : Prop where
  background : Background w w'
  store : w'.store = w.store
  handles : w'.handles = w.handles
  readers : w'.readers = w.readers
  outcomes : w'.outcomes = w.outcomes
  journals : w'.journals = w.journals
  observers : w'.observers = w.observers
  others : ∀ c', c ≠ c' → w'.caches.get? c' = w.caches.get? c'
  /-- Settings and memory aside. -/
  dropped : ∀ y, w'.caches.get? c = some y → ∃ x, w.caches.get? c = some x ∧
    y.writable = x.writable.erase l ∧ y.readers = x.readers.erase l
  held : ∀ c', w'.caches.holds c' = w.caches.holds c'

/-- A cache may have dropped what it held of the ledger. -/
theorem Drops.tells {c : Nat} (h : Drops c l w w') : Tells l w w' where
  background := h.background
  grows := h.store ▸ .refl w.store
  subscribers := by rw [h.store]
  keys l' _ := by rw [h.store]
  fenced l' := by rw [h.store]
  handles := .of_eq h.handles
  readers := h.readers
  outcomes := h.outcomes
  journals := h.journals
  observers := h.observers

theorem holds_modifyCache (w : Host) (c c' : Nat) (f : Cache → Cache) :
    (w.modifyCache c f).caches.holds c' = w.caches.holds c' :=
  w.caches.holds_modify c f c'

/-- Remembering a deletion leaves the cached handles as they are. -/
theorem rememberDeletion_eq (w : Host) (c : Nat) (l : LedgerId) :
    ∃ memory metrics, w.rememberDeletion c l =
      { w with
        caches := w.caches.modify c fun _ => { w.cacheAt c with memory }
        metrics
        now := w.now + 1 } := by
  unfold rememberDeletion Cache.remember
  dsimp only
  split
  · exact ⟨_, w.metrics, rfl⟩
  · exact ⟨_, _, rfl⟩

/-- Both kinds of handle are dropped, and the cache stays. -/
theorem dropHandles_drops (w : Host) (c : Nat) (l : LedgerId) :
    Drops c l w (w.dropHandles c l) where
  background := .of_eq rfl rfl rfl
  store := rfl
  handles := rfl
  readers := rfl
  outcomes := rfl
  journals := rfl
  observers := rfl
  others c' hne := by
    change (w.caches.modify c _).get? c' = _
    rw [Arena.get?_modify, if_neg hne]
  dropped y hy := by
    change (w.caches.modify c _).get? c = _ at hy
    rw [Arena.get?_modify, if_pos rfl, Option.map_eq_some_iff] at hy
    obtain ⟨x, hx, rfl⟩ := hy
    exact ⟨x, hx, rfl, rfl⟩
  held c' := holds_modifyCache w c c' _

/-- Whether or not the cache remembers the deletion, it drops what it holds. -/
theorem tellCache_drops (w : Host) (c : Nat) (l : LedgerId) (wasFenced : Bool) :
    Drops c l w (w.tellCache c l wasFenced) := by
  unfold tellCache
  dsimp only
  split
  next =>
    obtain ⟨memory, metrics, heq⟩ := rememberDeletion_eq w c l
    rw [heq]
    have hdrops := dropHandles_drops { w with
      caches := w.caches.modify c fun _ => { w.cacheAt c with memory }
      metrics
      now := w.now + 1 } c l
    obtain ⟨⟨hnow, hunplanned⟩, hnotified⟩ := hdrops.background
    have hticks : Background w (dropHandles _ c l) :=
      ⟨⟨Nat.le_trans (Nat.le_succ _) hnow, hunplanned⟩, hnotified⟩
    refine ⟨hticks, hdrops.store, hdrops.handles, hdrops.readers, hdrops.outcomes,
      hdrops.journals, hdrops.observers, ?_, ?_, ?_⟩
    · intro c' hne
      rw [hdrops.others c' hne]
      change (w.caches.modify c _).get? c' = _
      rw [Arena.get?_modify, if_neg hne]
    · intro y hy
      obtain ⟨x, hx, hwritable, hreaders⟩ := hdrops.dropped y hy
      change (w.caches.modify c _).get? c = _ at hx
      rw [Arena.get?_modify, if_pos rfl, Option.map_eq_some_iff] at hx
      obtain ⟨x₀, hx₀, rfl⟩ := hx
      -- what is remembered is the cache as it was, but for its memory
      have hat := cacheAt_of_get? hx₀
      exact ⟨x₀, hx₀, hat ▸ hwritable, hat ▸ hreaders⟩
    · intro c'
      rw [hdrops.held]
      exact holds_modifyCache w c c' _
  next => exact dropHandles_drops w c l

/-! ### Subscribers -/

/-- An observer may create the ledger anew, and nothing else. -/
theorem tellObserver_tells (w : Host) (observer : Observer) (l : LedgerId) (wasFenced : Bool) :
    Tells l w (w.tellObserver observer l wasFenced) := by
  unfold tellObserver
  dsimp only
  split
  next => exact (emit_idle w rfl).tells
  next r _ =>
    exact (openWritable_opens w r.cache l r.key r.replay).tells.trans (emit_idle _ rfl).tells

/-- Each subscriber changes caches and the presence of the one ledger at most. -/
theorem tellSubscriber_tells (w : Host) (l : LedgerId) (wasFenced : Bool) (who : Subscriber) :
    Tells l w (tellSubscriber l wasFenced w who) := by
  cases who with
  | cache c => exact (tellCache_drops w c l wasFenced).tells
  | observer o =>
      unfold tellSubscriber
      dsimp only
      split
      next => exact (Idle.refl w).tells
      next observer _ => exact tellObserver_tells w observer l wasFenced

theorem tellSubscribers_tells (w : Host) (l : LedgerId) (wasFenced : Bool)
    (subscribers : List Subscriber) :
    Tells l w (subscribers.foldl (tellSubscriber l wasFenced) w) := by
  induction subscribers generalizing w with
  | nil => exact (Idle.refl w).tells
  | cons who subscribers ih => exact (tellSubscriber_tells w l wasFenced who).trans (ih _)

/-! ### Deletion -/

/-- A deletion fails idly, or removes the ledger and tells the subscribers that
are present of it. -/
theorem remove_cases (w : Host) (access : Access) (l : LedgerId) :
    ((∃ e, (w.remove access l).1 = .error e) ∧ Idle w (w.remove access l).2) ∨
      ∃ w₁ wasFenced, (w.remove access l).1 = .ok () ∧ StoreOnly w w₁ ∧
        w.store.Removes l w₁.store ∧
        w₁.store.subscribers = w.store.subscribers.filter w₁.isPresent ∧
        (w.remove access l).2 = w₁.store.subscribers.foldl (tellSubscriber l wasFenced) w₁ := by
  unfold remove
  split
  next e w₁ hsend => exact Or.inl ⟨⟨e, rfl⟩, send_error hsend⟩
  next wasFenced subscribers w₁ hsend =>
    obtain ⟨hact, honly⟩ := send_ok hsend
    obtain ⟨hremoves, -, hfilter, hsubscribers⟩ := Store.remove_spec hact
    refine Or.inr ⟨w₁, wasFenced, rfl, honly, hremoves, ?_, by rw [hsubscribers]⟩
    rw [hsubscribers, hfilter]
    congr 1
    funext who
    cases who with
    | cache c => exact congrArg (Arena.holds · c) honly.caches.symm
    | observer o => exact congrArg (Arena.holds · o) honly.observers.symm

end Host

end FencedLedger
