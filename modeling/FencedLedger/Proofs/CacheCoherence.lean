import FencedLedger.Proofs.Effects

/-!
# Coherence of caches and store

Between operations, whatever a cache holds belongs to a ledger of the store, and
was made since the ledger was last removed. Within a deletion this fails: the
ledger is gone, or is there anew, and caches that are yet to be told hold what
is stale. Observers open ledgers through just these caches. The invariant
therefore says which caches may be stale about which ledgers, and telling a
cache takes it off.
-/

namespace FencedLedger

namespace Host

variable {w w' : Host}

/-- How many handles and readers had been made when each ledger was last
removed, or fewer. -/
structure Epochs where
  handles : LedgerId → Nat
  readers : LedgerId → Nat

/-- What caches hold belongs to ledgers of the store, and to their present
lives, but for what is `stale`. -/
structure Coherent (e : Epochs) (stale : Nat → LedgerId → Prop) (w : Host) : Prop where
  handles_le : ∀ l, e.handles l ≤ w.handles.next
  readers_le : ∀ l, e.readers l ≤ w.readers.next
  subscribed : ∀ c, w.caches.holds c = true → Subscriber.cache c ∈ w.store.subscribers
  writable : ∀ {c x l h}, w.caches.get? c = some x → x.writable.get? l = some h →
    ∃ handle, w.handles.get? h = some handle ∧ handle.ledger = l ∧
      (stale c l ∨ w.store.keyOf? l = some handle.key ∧ e.handles l ≤ h)
  readers : ∀ {c x l r}, w.caches.get? c = some x → x.readers.get? l = some r →
    w.readers.get? r = some l ∧
      (stale c l ∨ (w.store.keyOf? l).isSome = true ∧ e.readers l ≤ r)

/-- Nothing is stale. -/
def Nothing : Nat → LedgerId → Prop := fun _ _ => False

/-- More caches may be called stale than are. -/
theorem Coherent.mono {e : Epochs} {stale stale' : Nat → LedgerId → Prop}
    (hco : Coherent e stale w) (h : ∀ c l, stale c l → stale' c l) : Coherent e stale' w where
  handles_le := hco.handles_le
  readers_le := hco.readers_le
  subscribed := hco.subscribed
  writable hx hh := by
    obtain ⟨handle, hget, hledger, hlive⟩ := hco.writable hx hh
    exact ⟨handle, hget, hledger, hlive.imp_left (h _ _)⟩
  readers hx hr := (hco.readers hx hr).imp_right (Or.imp_left (h _ _))

/-! ### Changes that leave caches coherent -/

/-- Ledgers, handles, readers and subscriptions may be added, cached ones may be
dropped. -/
structure Upholds (w w' : Host) : Prop where
  keys : ∀ {l key}, w.store.keyOf? l = some key → w'.store.keyOf? l = some key
  next : w.handles.next ≤ w'.handles.next
  nextReader : w.readers.next ≤ w'.readers.next
  handles : ∀ {h x}, w.handles.get? h = some x →
    ∃ y, w'.handles.get? h = some y ∧ y.ledger = x.ledger ∧ y.key = x.key
  readers : ∀ {r l}, w.readers.get? r = some l → w'.readers.get? r = some l
  subscribed : (∀ c, w.caches.holds c = true → Subscriber.cache c ∈ w.store.subscribers) →
    ∀ c, w'.caches.holds c = true → Subscriber.cache c ∈ w'.store.subscribers
  cachedWritable : ∀ {c y l h}, w'.caches.get? c = some y → y.writable.get? l = some h →
    ∃ x, w.caches.get? c = some x ∧ x.writable.get? l = some h
  cachedReaders : ∀ {c y l r}, w'.caches.get? c = some y → y.readers.get? l = some r →
    ∃ x, w.caches.get? c = some x ∧ x.readers.get? l = some r

/-- What caches hold stays coherent while keys stay and handles keep their ledger and key. -/
theorem Coherent.upholds {e : Epochs} {stale : Nat → LedgerId → Prop}
    (hco : Coherent e stale w) (h : Upholds w w') : Coherent e stale w' where
  handles_le l := Nat.le_trans (hco.handles_le l) h.next
  readers_le l := Nat.le_trans (hco.readers_le l) h.nextReader
  subscribed := h.subscribed hco.subscribed
  writable hy hh := by
    obtain ⟨x, hx, hh⟩ := h.cachedWritable hy hh
    obtain ⟨handle, hget, hledger, hlive⟩ := hco.writable hx hh
    obtain ⟨handle', hget', hledger', hkey'⟩ := h.handles hget
    refine ⟨handle', hget', hledger'.trans hledger, hlive.imp_right ?_⟩
    intro hlive
    rw [hkey']
    exact ⟨h.keys hlive.1, hlive.2⟩
  readers hy hr := by
    obtain ⟨x, hx, hr⟩ := h.cachedReaders hy hr
    obtain ⟨hget, hlive⟩ := hco.readers hx hr
    refine ⟨h.readers hget, hlive.imp_right ?_⟩
    intro hlive
    obtain ⟨key, hkey⟩ := Option.isSome_iff_exists.mp hlive.1
    exact ⟨by rw [h.keys hkey]; rfl, hlive.2⟩

/-- Fencing changes neither keys nor what handles are of. -/
theorem Fences.upholds (h : Fences w w') : Upholds w w' where
  keys hkey := by rwa [h.store.keys]
  next := Nat.le_of_eq h.next.symm
  nextReader := Nat.le_of_eq (by rw [h.readers])
  handles hx := by
    obtain ⟨y, hy, hledger, hkey, -⟩ := h.bound hx
    exact ⟨y, hy, hledger, hkey⟩
  readers hr := by rwa [h.readers]
  subscribed hall c hheld := by
    rw [h.caches] at hheld
    rw [h.store.subscribers]
    exact hall c hheld
  cachedWritable hy hh := ⟨_, by rwa [h.caches] at hy, hh⟩
  cachedReaders hy hr := ⟨_, by rwa [h.caches] at hy, hr⟩

theorem Idle.upholds (h : Idle w w') : Upholds w w' := h.fences.upholds

/-- Calls that keep the keys of the store have nothing to do with what caches hold. -/
theorem SteadyCall.upholds (h : SteadyCall w w') : Upholds w w' where
  keys hkey := by rwa [h.store.keys]
  next := Nat.le_of_eq (by rw [h.handles])
  nextReader := Nat.le_of_eq (by rw [h.readers])
  handles hx := ⟨_, by rwa [h.handles], rfl, rfl⟩
  readers hr := by rwa [h.readers]
  subscribed hall c hheld := by
    rw [h.caches] at hheld
    rw [h.store.subscribers]
    exact hall c hheld
  cachedWritable hy hh := ⟨_, by rwa [h.caches] at hy, hh⟩
  cachedReaders hy hr := ⟨_, by rwa [h.caches] at hy, hr⟩

/-- Caches that come and go take what they hold with them. -/
theorem Members.upholds (h : Members w w') : Upholds w w' where
  keys hkey := by
    unfold Store.keyOf?
    rwa [h.ledgers]
  next := Nat.le_of_eq (by rw [h.handles])
  nextReader := Nat.le_of_eq (by rw [h.readers])
  handles hx := ⟨_, by rwa [h.handles], rfl, rfl⟩
  readers hr := by rwa [h.readers]
  subscribed := h.subscribed
  cachedWritable hy hh := by
    rcases h.caches hy with hx | ⟨-, config, rfl⟩
    · exact ⟨_, hx, hh⟩
    · cases hh
  cachedReaders hy hr := by
    rcases h.caches hy with hx | ⟨-, config, rfl⟩
    · exact ⟨_, hx, hr⟩
    · cases hr

/-- A ledger that is created was held by no cache, as caches hold only what the store has. -/
theorem upholds_creates {l : LedgerId} {key : MasterKey} (honly : StoreOnly w w')
    (h : Store.Creates l key w.store w'.store) : Upholds w w' where
  keys {l' _} hkey := by
    rw [h.keys]
    split
    next heq =>
      subst heq
      rw [h.absent] at hkey
      cases hkey
    next => exact hkey
  next := Nat.le_of_eq (by rw [honly.handles])
  nextReader := Nat.le_of_eq (by rw [honly.readers])
  handles hx := ⟨_, by rwa [honly.handles], rfl, rfl⟩
  readers hr := by rwa [honly.readers]
  subscribed hall c hheld := by
    rw [honly.caches] at hheld
    rw [h.subscribers]
    exact hall c hheld
  cachedWritable hy hh := ⟨_, by rwa [honly.caches] at hy, hh⟩
  cachedReaders hy hr := ⟨_, by rwa [honly.caches] at hy, hr⟩

/-- A new reader is cached nowhere yet. -/
theorem addReader_upholds (w : Host) (l : LedgerId) :
    Upholds w { w with readers := w.readers.add l } where
  keys := id
  next := Nat.le_refl _
  nextReader := by simp
  handles hx := ⟨_, hx, rfl, rfl⟩
  readers hr := Arena.get?_add_of_get? hr l
  subscribed := id
  cachedWritable hy hh := ⟨_, hy, hh⟩
  cachedReaders hy hr := ⟨_, hy, hr⟩

/-! ### Caching what was made -/

section Caching

variable {e : Epochs} {stale : Nat → LedgerId → Prop} {c : Nat} {l : LedgerId}

/-- Only the cache that is modified is not what it was. -/
theorem modifyCache_cases {c c' : Nat} {f : Cache → Cache} {y : Cache}
    (hy : (w.modifyCache c f).caches.get? c' = some y) :
    (∃ x, w.caches.get? c' = some x ∧ y = f x) ∨ w.caches.get? c' = some y := by
  change (w.caches.modify c f).get? c' = some y at hy
  rw [Arena.get?_modify] at hy
  split at hy
  next =>
    obtain ⟨x, hx, rfl⟩ := Option.map_eq_some_iff.mp hy
    exact Or.inl ⟨x, hx, rfl⟩
  next => exact Or.inr hy

/-- A handle made since the ledger was last removed may be cached. -/
theorem Coherent.addWritable {h : Nat} {handle : Handle} (hco : Coherent e stale w)
    (hget : w.handles.get? h = some handle) (hledger : handle.ledger = l)
    (hkey : w.store.keyOf? l = some handle.key) (hnew : e.handles l ≤ h) :
    Coherent e stale (w.modifyCache c (·.addWritable l h)) where
  handles_le := hco.handles_le
  readers_le := hco.readers_le
  subscribed c' hheld := by
    rw [holds_modifyCache] at hheld
    exact hco.subscribed c' hheld
  writable {c' y l' h'} hy hh := by
    rcases modifyCache_cases hy with ⟨x, hx, rfl⟩ | hy
    · change (x.writable.insert l h).get? l' = some h' at hh
      rw [Table.get?_insert] at hh
      split at hh
      next heq =>
        subst heq
        cases hh
        exact ⟨handle, hget, hledger, Or.inr ⟨hkey, hnew⟩⟩
      next => exact hco.writable hx hh
    · exact hco.writable hy hh
  readers hy hr := by
    rcases modifyCache_cases hy with ⟨x, hx, rfl⟩ | hy
    · exact hco.readers hx hr
    · exact hco.readers hy hr

/-- A reader made since the ledger was last removed may be cached. -/
theorem Coherent.addReader {r : Nat} (hco : Coherent e stale w)
    (hget : w.readers.get? r = some l) (hheld : (w.store.keyOf? l).isSome = true)
    (hnew : e.readers l ≤ r) : Coherent e stale (w.modifyCache c (·.addReader l r)) where
  handles_le := hco.handles_le
  readers_le := hco.readers_le
  subscribed c' hheld := by
    rw [holds_modifyCache] at hheld
    exact hco.subscribed c' hheld
  writable hy hh := by
    rcases modifyCache_cases hy with ⟨x, hx, rfl⟩ | hy
    · exact hco.writable hx hh
    · exact hco.writable hy hh
  readers {c' y l' r'} hy hr := by
    rcases modifyCache_cases hy with ⟨x, hx, rfl⟩ | hy
    · change (x.readers.insert l r).get? l' = some r' at hr
      rw [Table.get?_insert] at hr
      split at hr
      next heq =>
        subst heq
        cases hr
        exact ⟨hget, Or.inr ⟨hheld, hnew⟩⟩
      next => exact hco.readers hx hr
    · exact hco.readers hy hr

/-- Making a handle binds its key, whether the ledger was there or not. -/
theorem MakesHandle.upholds {key : MasterKey} (h : MakesHandle l key w w')
    (hcaches : w'.caches = w.caches) : Upholds w w' where
  keys {l' key'} hkey := by
    rcases Store.bindKey_cases h.bound with hcreates | ⟨hsame, -⟩
    · have honly : StoreOnly w { w with store := w'.store } :=
        ⟨.of_eq rfl rfl rfl, rfl, rfl, rfl, rfl, rfl, rfl⟩
      exact (upholds_creates honly hcreates).keys hkey
    · rwa [hsame]
  next := by
    obtain ⟨ack, hadd⟩ := h.handles
    simp [hadd]
  nextReader := Nat.le_of_eq (by rw [h.readers])
  handles hx := by
    obtain ⟨ack, hadd⟩ := h.handles
    exact ⟨_, by rw [hadd]; exact Arena.get?_add_of_get? hx _, rfl, rfl⟩
  readers hr := by rwa [h.readers]
  subscribed hall c' hheld := by
    rw [hcaches] at hheld
    have hsubscribers : w'.store.subscribers = w.store.subscribers := (h.tells).subscribers
    rw [hsubscribers]
    exact hall c' hheld
  cachedWritable hy hh := ⟨_, by rwa [hcaches] at hy, hh⟩
  cachedReaders hy hr := ⟨_, by rwa [hcaches] at hy, hr⟩

theorem MakesHandle.keyOf? {key : MasterKey} (h : MakesHandle l key w w') :
    w'.store.keyOf? l = some key := by
  rcases Store.bindKey_cases h.bound with hcreates | ⟨hsame, hkey⟩
  · rw [hcreates.keys, if_pos rfl]
  · rw [hsame]
    exact hkey

/-- A look-up keeps caches as coherent as they are, also within a deletion. -/
theorem Coherent.opens {presented : Bytes} (hco : Coherent e stale w)
    (h : Opens c l presented w w') : Coherent e stale w' := by
  cases h with
  | idle hidle => exact hco.upholds hidle.upholds
  | makes hmade _ hcaches =>
      obtain ⟨ack, hadd⟩ := hmade.handles
      -- the host with the handle made and not yet cached
      have huncached : Upholds w { w' with caches := w.caches } :=
        MakesHandle.upholds ⟨hmade.background.congr rfl rfl, hmade.bound, hmade.handles,
          hmade.readers, hmade.outcomes, hmade.journals, hmade.observers⟩ rfl
      have hget : w'.handles.get? w.handles.next = some (.create l ⟨presented⟩ ack) := by
        rw [hadd]
        exact Arena.get?_add_next _ _
      have hcached : w' = ({ w' with caches := w.caches } : Host).modifyCache c
          (·.addWritable l w.handles.next) := by
        unfold modifyCache
        rw [← hcaches]
      rw [hcached]
      exact (hco.upholds huncached).addWritable hget rfl hmade.keyOf? (hco.handles_le l)

/-- A look-up for reading caches a reader that is current. -/
theorem Coherent.opensReader (hco : Coherent e stale w) (h : OpensReader c l w w') :
    Coherent e stale w' := by
  cases h with
  | idle hidle => exact hco.upholds hidle.upholds
  | makes hheld honly hstore =>
      have hget := w.readers.get?_add_next l
      rw [w.store.contains_eq_isSome_keyOf? l] at hheld
      have hcached := (hco.upholds (addReader_upholds w l)).addReader (c := c) hget hheld
        (hco.readers_le l)
      exact hcached.upholds (honly.idle hstore).upholds

end Caching

/-! ### Deletion -/

section Deletion

variable {e : Epochs} {l : LedgerId}

/-- Caches that are yet to be told of a deletion may be stale about it. -/
def Untold (l : LedgerId) (subscribers : List Subscriber) (c : Nat) (l' : LedgerId) : Prop :=
  l' = l ∧ Subscriber.cache c ∈ subscribers

/-- A cache that drops what it holds of a ledger is stale about it no longer. -/
theorem Coherent.drops {stale : Nat → LedgerId → Prop} {c : Nat} (hco : Coherent e stale w)
    (h : Drops c l w w') :
    Coherent e (fun c' l' => stale c' l' ∧ ¬ (c' = c ∧ l' = l)) w' where
  handles_le := by rw [h.handles]; exact hco.handles_le
  readers_le := by rw [h.readers]; exact hco.readers_le
  subscribed c' hheld := by
    rw [h.held] at hheld
    rw [h.store]
    exact hco.subscribed c' hheld
  writable {c' y l' h'} hy hh := by
    rw [h.handles, h.store]
    by_cases hc : c = c'
    · subst hc
      obtain ⟨x, hx, hwritable, -⟩ := h.dropped y hy
      rw [hwritable, Table.get?_erase] at hh
      split at hh
      next => cases hh
      -- what the cache kept is of another ledger
      next hne =>
        obtain ⟨handle, hget, hledger, hlive⟩ := hco.writable hx hh
        exact ⟨handle, hget, hledger,
          hlive.imp_left fun hstale => ⟨hstale, fun heq => hne heq.2.symm⟩⟩
    · -- the other caches hold what they held
      rw [h.others c' hc] at hy
      obtain ⟨handle, hget, hledger, hlive⟩ := hco.writable hy hh
      exact ⟨handle, hget, hledger,
        hlive.imp_left fun hstale => ⟨hstale, fun heq => hc heq.1.symm⟩⟩
  readers {c' y l' r} hy hr := by
    rw [h.readers, h.store]
    by_cases hc : c = c'
    · subst hc
      obtain ⟨x, hx, -, hreaders⟩ := h.dropped y hy
      rw [hreaders, Table.get?_erase] at hr
      split at hr
      next => cases hr
      next hne =>
        exact (hco.readers hx hr).imp_right
          (Or.imp_left fun hstale => ⟨hstale, fun heq => hne heq.2.symm⟩)
    · rw [h.others c' hc] at hy
      exact (hco.readers hy hr).imp_right
        (Or.imp_left fun hstale => ⟨hstale, fun heq => hc heq.1.symm⟩)

/-- Telling a subscriber takes it off the stale ones. An observer, which may
open the ledger through any cache, adds none. -/
theorem Coherent.tellSubscriber {who : Subscriber} {rest : List Subscriber} {wasFenced : Bool}
    (hco : Coherent e (Untold l (who :: rest)) w) :
    Coherent e (Untold l rest) (Host.tellSubscriber l wasFenced w who) := by
  cases who with
  | cache c =>
      refine (hco.drops (tellCache_drops w c l wasFenced)).mono ?_
      rintro c' l' ⟨⟨hl, hmem⟩, hne⟩
      rcases List.mem_cons.mp hmem with heq | hrest
      · exact absurd ⟨Subscriber.cache.inj heq, hl⟩ hne
      · exact ⟨hl, hrest⟩
  | observer o =>
      -- no cache was told, so as many are stale as before
      have hrest : Coherent e (Untold l rest) w := by
        refine hco.mono ?_
        rintro c l' ⟨hl, hmem⟩
        rcases List.mem_cons.mp hmem with heq | hrest
        · cases heq
        · exact ⟨hl, hrest⟩
      unfold Host.tellSubscriber
      dsimp only
      split
      next => exact hrest
      next observer _ =>
        unfold tellObserver
        dsimp only
        split
        next => exact hrest.upholds (emit_idle w rfl).upholds
        next r _ =>
          have hopened := hrest.opens (openWritable_opens w r.cache l r.key r.replay)
          exact hopened.upholds (emit_idle _ rfl).upholds

/-- When all subscribers were told, no cache is stale. -/
theorem Coherent.tellSubscribers {wasFenced : Bool} (subscribers : List Subscriber)
    (hco : Coherent e (Untold l subscribers) w) :
    Coherent e Nothing (subscribers.foldl (Host.tellSubscriber l wasFenced) w) := by
  induction subscribers generalizing w with
  | nil =>
      refine hco.mono ?_
      rintro c l' ⟨-, hmem⟩
      cases hmem
  | cons who rest ih => exact ih hco.tellSubscriber

/-- A ledger is removed now. -/
def Epochs.removing (e : Epochs) (w : Host) (l : LedgerId) : Epochs where
  handles l' := if l' = l then w.handles.next else e.handles l'
  readers l' := if l' = l then w.readers.next else e.readers l'

/-- Once a ledger is removed, just the caches that are going to be told may be
stale, as every cache subscribed when it was made. -/
theorem Coherent.removes {w₁ : Host} (hco : Coherent e Nothing w) (honly : StoreOnly w w₁)
    (hremoves : w.store.Removes l w₁.store)
    (hsubscribers : w₁.store.subscribers = w.store.subscribers.filter w₁.isPresent) :
    Coherent (e.removing w l) (Untold l w₁.store.subscribers) w₁ := by
  have hsubscribed : ∀ c, w₁.caches.holds c = true →
      Subscriber.cache c ∈ w₁.store.subscribers := by
    intro c hheld
    rw [hsubscribers]
    refine List.mem_filter.mpr ⟨hco.subscribed c ?_, hheld⟩
    rwa [← honly.caches]
  have hheld : ∀ {c x}, w₁.caches.get? c = some x → w₁.caches.holds c = true := by
    intro c x hx
    unfold Arena.holds
    rw [hx]
    rfl
  refine ⟨?_, ?_, hsubscribed, ?_, ?_⟩
  · intro l'
    rw [honly.handles]
    unfold Epochs.removing
    dsimp only
    split
    next => exact Nat.le_refl _
    next => exact hco.handles_le l'
  · intro l'
    rw [honly.readers]
    unfold Epochs.removing
    dsimp only
    split
    next => exact Nat.le_refl _
    next => exact hco.readers_le l'
  · intro c x l' h hx hh
    have hstale := hsubscribed c (hheld hx)
    rw [honly.caches] at hx
    obtain ⟨handle, hget, hledger, hlive⟩ := hco.writable hx hh
    refine ⟨handle, by rwa [honly.handles], hledger, ?_⟩
    by_cases hl : l' = l
    · -- the cache is yet to be told
      exact Or.inl ⟨hl, hstale⟩
    · rcases hlive with hnothing | ⟨hkey, hnew⟩
      · exact hnothing.elim
      · refine Or.inr ⟨?_, ?_⟩
        · rwa [hremoves.keys, if_neg (Ne.symm hl)]
        · unfold Epochs.removing
          simpa [hl] using hnew
  · intro c x l' r hx hr
    have hstale := hsubscribed c (hheld hx)
    rw [honly.caches] at hx
    obtain ⟨hget, hlive⟩ := hco.readers hx hr
    refine ⟨by rwa [honly.readers], ?_⟩
    by_cases hl : l' = l
    · exact Or.inl ⟨hl, hstale⟩
    · rcases hlive with hnothing | ⟨hkey, hnew⟩
      · exact hnothing.elim
      · refine Or.inr ⟨?_, ?_⟩
        · rwa [hremoves.keys, if_neg (Ne.symm hl)]
        · unfold Epochs.removing
          simpa [hl] using hnew

end Deletion

/-! ### Operations and runs -/

theorem start_coherent (faults : Option FaultPlan) :
    Coherent ⟨fun _ => 0, fun _ => 0⟩ Nothing (start faults) where
  handles_le _ := Nat.zero_le _
  readers_le _ := Nat.zero_le _
  subscribed _ hheld := by cases hheld
  writable hx _ := by cases hx
  readers hx _ := by cases hx

/-- The epochs after an operation on `w` that removes a ledger, or none. -/
def Epochs.after (e : Epochs) (w : Host) : (removed : Option LedgerId) → Epochs
  | none => e
  | some l => e.removing w l

/-- Between operations no cache is stale: a deletion makes all of them so and tells all of
them. -/
theorem Effect.coherent {e : Epochs} {op : Op} {removed : Option LedgerId}
    (h : Effect op w w' removed) (hco : Coherent e Nothing w) :
    Coherent (e.after w removed) Nothing w' := by
  cases h with
  | idle h => exact hco.upholds h.upholds
  | steady _ h => exact hco.upholds h.upholds
  | fences _ h => exact hco.upholds h.upholds
  | creates honly h => exact hco.upholds (upholds_creates honly h)
  | makesHandle h hcaches => exact hco.upholds (h.upholds hcaches)
  | makesReader honly hstore =>
      exact (hco.upholds (addReader_upholds w _)).upholds (honly.idle hstore).upholds
  | opens h => exact hco.opens h
  | opensReader h => exact hco.opensReader h
  | drops _ h => exact (hco.drops h).mono fun _ _ hstale => hstale.1
  | members h => exact hco.upholds h.upholds
  | removes _ honly hremoves hsubscribers htold =>
      rw [htold]
      exact (hco.removes honly hremoves hsubscribers).tellSubscribers _

/-- Epochs only move on. -/
theorem Epochs.le_after {e : Epochs} (hco : Coherent e Nothing w) (removed : Option LedgerId)
    (l : LedgerId) : e.handles l ≤ (e.after w removed).handles l ∧
      e.readers l ≤ (e.after w removed).readers l := by
  cases removed with
  | none => exact ⟨Nat.le_refl _, Nat.le_refl _⟩
  | some l' =>
      unfold Epochs.after Epochs.removing
      dsimp only
      split
      next heq =>
        subst heq
        exact ⟨hco.handles_le l, hco.readers_le l⟩
      next => exact ⟨Nat.le_refl _, Nat.le_refl _⟩

/-- The epochs bound what was made before any removal in the run. -/
theorem run_coherent {e : Epochs} (hco : Coherent e Nothing w) (ops : List Op) :
    ∃ e' : Epochs, Coherent e' Nothing (w.run ops) ∧
      (∀ l, e.handles l ≤ e'.handles l ∧ e.readers l ≤ e'.readers l) ∧
      ∀ pre op post l, ops = pre ++ op :: post → (w.run pre).removed? op = some l →
        (w.run pre).handles.next ≤ e'.handles l ∧ (w.run pre).readers.next ≤ e'.readers l := by
  induction ops generalizing w e with
  | nil =>
      refine ⟨e, hco, fun l => ⟨Nat.le_refl _, Nat.le_refl _⟩, ?_⟩
      intro pre op post l hsplit
      cases pre <;> cases hsplit
  | cons op ops ih =>
      obtain ⟨e', hco', hle, hbounds⟩ := ih ((perform_effect w op).coherent hco)
      have hle₁ := Epochs.le_after hco (w.removed? op)
      refine ⟨e', hco', fun l => ⟨Nat.le_trans (hle₁ l).1 (hle l).1,
        Nat.le_trans (hle₁ l).2 (hle l).2⟩, ?_⟩
      intro pre op' post l hsplit hremoved
      cases pre with
      | nil =>
          -- the removal itself moves the epochs of its ledger up
          obtain ⟨rfl, rfl⟩ := List.cons.inj hsplit
          have hl := hle l
          change w.removed? op = some l at hremoved
          simp only [hremoved, Epochs.after, Epochs.removing, if_true] at hl
          exact hl
      | cons first pre =>
          obtain ⟨rfl, hrest⟩ := List.cons.inj hsplit
          exact hbounds pre op' post l hrest hremoved

/-! ### What a cache hands out -/

/-- A handle that was made or found is cached when the look-up returns. -/
theorem obtainHandle_cached {c : Nat} {l : LedgerId} {presented : Bytes} {h : Nat}
    (hheld : w.caches.holds c = true) (hobtained : w.obtainHandle c l presented = (.ok h, w')) :
    ∃ x, w'.caches.get? c = some x ∧ x.writable.get? l = some h := by
  obtain ⟨x, hx⟩ := Option.isSome_iff_exists.mp hheld
  have hat := cacheAt_of_get? hx
  unfold obtainHandle at hobtained
  rw [hat] at hobtained
  split at hobtained
  next hcached =>
    cases hobtained
    exact ⟨x, hx, hcached⟩
  next =>
    have hidle := checkStoredKey_idle w l presented
    split at hobtained
    next => cases hobtained
    next w₁ hcheck =>
      rw [hcheck] at hidle
      split at hobtained
      next => cases hobtained
      next w₂ hcreate =>
        cases hobtained
        obtain ⟨-, -, hcaches⟩ := createHandle_ok hcreate
        refine ⟨x.addWritable l h, ?_, Table.get?_insert_self _ _ _⟩
        change (w₂.caches.modify c _).get? c = _
        rw [Arena.get?_modify, if_pos rfl, hcaches, hidle.caches, hx]
        rfl

/-- Finding leaves the handle that it answers in the cache. -/
theorem findHandle_cached {c : Nat} {l : LedgerId} {presented : Bytes} {replay : Bool} {h : Nat}
    (hheld : w.caches.holds c = true)
    (hfound : w.findHandle c l presented replay = (.ok h, w')) :
    ∃ x, w'.caches.get? c = some x ∧ x.writable.get? l = some h := by
  obtain ⟨x, hx⟩ := Option.isSome_iff_exists.mp hheld
  have hat := cacheAt_of_get? hx
  unfold findHandle at hfound
  rw [hat] at hfound
  split at hfound
  next hcached =>
    cases hfound
    exact ⟨x, hx, hcached⟩
  next =>
    split at hfound
    next => cases hfound
    next =>
      split at hfound
      next => cases hfound
      next w₁ hobtained =>
        cases hfound
        rw [(showCached_idle w₁ c .writable).caches]
        exact obtainHandle_cached hheld hobtained

/-- A handle that a look-up hands out is in the cache afterwards. -/
theorem openWritable_cached {c : Nat} {l : LedgerId} {presented : Bytes} {replay : Bool}
    {h : Nat} (hheld : w.caches.holds c = true)
    (hok : (w.openWritable c l presented replay).1 = .ok h) :
    ∃ x, (w.openWritable c l presented replay).2.caches.get? c = some x ∧
      x.writable.get? l = some h := by
  unfold openWritable at hok ⊢
  cases hfound : w.findHandle c l presented replay with
  | mk answer w₁ =>
      cases answer with
      | error e => rw [hfound] at hok; cases hok
      | ok h' =>
          rw [hfound] at hok
          have hidle := checkAccess_idle w₁ h' presented
          dsimp only at hok ⊢
          split at hok
          next => cases hok
          next hgranted =>
            cases hok
            rw [hgranted] at hidle
            dsimp only at hidle ⊢
            rw [hidle.caches]
            exact findHandle_cached hheld hfound

/-- A reader that a look-up hands out is in the cache afterwards. -/
theorem openReader_cached {c : Nat} {l : LedgerId} {r : Nat} (hheld : w.caches.holds c = true)
    (hok : (w.openReader c l).1 = .ok r) :
    ∃ x, (w.openReader c l).2.caches.get? c = some x ∧ x.readers.get? l = some r := by
  obtain ⟨x, hx⟩ := Option.isSome_iff_exists.mp hheld
  have hat := cacheAt_of_get? hx
  unfold openReader at hok ⊢
  rw [hat] at hok ⊢
  split at hok
  next hcached =>
    cases hok
    exact ⟨x, hx, hcached⟩
  next =>
    cases hcreate : w.createReader l with
    | mk answer w₁ =>
        cases answer with
        | error e => rw [hcreate] at hok; cases hok
        | ok made =>
            rw [hcreate] at hok
            cases hok
            obtain ⟨-, -, -, honly⟩ := createReader_ok hcreate
            refine ⟨x.addReader l r, ?_, Table.get?_insert_self _ _ _⟩
            change (w₁.caches.modify c _).get? c = _
            rw [Arena.get?_modify, if_pos rfl, honly.caches]
            change (w.caches.get? c).map _ = _
            rw [hx]
            rfl

/-! ### Between operations -/

/-- After a run, a writable handle has the ledger that the store holds under an
id, and its key, and was made after each removal of the ledger. -/
structure Current (w : Host) (ops : List Op) (l : LedgerId) (h : Nat) : Prop where
  bound : ∃ handle ledger, (w.run ops).handles.get? h = some handle ∧ handle.ledger = l ∧
    (w.run ops).store.ledgers.get? l = some ledger ∧ ledger.key = handle.key
  made : ∀ pre op post, ops = pre ++ op :: post → (w.run pre).removed? op = some l →
    (w.run pre).handles.next ≤ h

/-- After a run, a reader reads a ledger that the store holds, and was made after
each removal of the ledger. -/
structure CurrentReader (w : Host) (ops : List Op) (l : LedgerId) (r : Nat) : Prop where
  bound : (w.run ops).readers.get? r = some l
  held : (w.run ops).store.ledgers.contains l = true
  made : ∀ pre op post, ops = pre ++ op :: post → (w.run pre).removed? op = some l →
    (w.run pre).readers.next ≤ r

/-- In every run, what a cache holds was made since its ledger was last removed. -/
theorem cached_current (faults : Option FaultPlan) (ops : List Op) {c : Nat} {x : Cache}
    {l : LedgerId} (hx : ((start faults).run ops).caches.get? c = some x) :
    (∀ h, x.writable.get? l = some h → Current (start faults) ops l h) ∧
      ∀ r, x.readers.get? l = some r → CurrentReader (start faults) ops l r := by
  obtain ⟨e, hco, -, hbounds⟩ := run_coherent (start_coherent faults) ops
  refine ⟨?_, ?_⟩
  · intro h hh
    obtain ⟨handle, hget, hledger, hstale | ⟨hkey, hnew⟩⟩ := hco.writable hx hh
    · exact hstale.elim
    · obtain ⟨ledger, hheld, hsame⟩ := Option.map_eq_some_iff.mp hkey
      refine ⟨⟨handle, ledger, hget, hledger, hheld, hsame⟩, ?_⟩
      intro pre op post hsplit hremoved
      exact Nat.le_trans (hbounds pre op post l hsplit hremoved).1 hnew
  · intro r hr
    obtain ⟨hget, hstale | ⟨hkey, hnew⟩⟩ := hco.readers hx hr
    · exact hstale.elim
    · refine ⟨hget, (Store.contains_eq_isSome_keyOf? _ l).trans hkey, ?_⟩
      intro pre op post hsplit hremoved
      exact Nat.le_trans (hbounds pre op post l hsplit hremoved).2 hnew

/-- An operation that answers a handle leaves it in the cache. -/
theorem perform_openWritable_ok {c : Nat} {l : LedgerId} {presented : Bytes} {replay : Bool}
    {h : Nat} (hok : (w.perform (.openWritable c l presented replay)).1 = .ok (.object h)) :
    ∃ x, (w.perform (.openWritable c l presented replay)).2.caches.get? c = some x ∧
      x.writable.get? l = some h := by
  obtain ⟨hheld, hcall⟩ := whenHeld_ok hok
  obtain ⟨h', hopened, hh⟩ := answer_ok hcall
  cases hh
  change ∃ x, (w.whenHeld _ _).2.caches.get? c = some x ∧ _
  rw [whenHeld, if_pos hheld, answer_host]
  exact openWritable_cached hheld hopened

/-- An operation that answers a reader leaves it in the cache. -/
theorem perform_openReader_ok {c : Nat} {l : LedgerId} {r : Nat}
    (hok : (w.perform (.openReader c l)).1 = .ok (.object r)) :
    ∃ x, (w.perform (.openReader c l)).2.caches.get? c = some x ∧
      x.readers.get? l = some r := by
  obtain ⟨hheld, hcall⟩ := whenHeld_ok hok
  obtain ⟨r', hopened, hr⟩ := answer_ok hcall
  cases hr
  change ∃ x, (w.whenHeld _ _).2.caches.get? c = some x ∧ _
  rw [whenHeld, if_pos hheld, answer_host]
  exact openReader_cached hheld hopened

/-- After every run, under every fault plan, whatever a cache holds is current,
and so is whatever it hands out next. -/
theorem caches_hold_and_hand_out_current (faults : Option FaultPlan) (ops : List Op) :
    (∀ c x l, ((start faults).run ops).caches.get? c = some x →
      (∀ h, x.writable.get? l = some h → Current (start faults) ops l h) ∧
      ∀ r, x.readers.get? l = some r → CurrentReader (start faults) ops l r) ∧
    (∀ c l presented replay h,
      (((start faults).run ops).perform (.openWritable c l presented replay)).1 =
        .ok (.object h) →
      Current (start faults) (ops ++ [.openWritable c l presented replay]) l h) ∧
    ∀ c l r, (((start faults).run ops).perform (.openReader c l)).1 = .ok (.object r) →
      CurrentReader (start faults) (ops ++ [.openReader c l]) l r := by
  refine ⟨fun c x l => cached_current faults ops, ?_, ?_⟩
  · intro c l presented replay h hok
    obtain ⟨x, hx, hh⟩ := perform_openWritable_ok hok
    rw [← run_concat] at hx
    exact (cached_current faults _ hx).1 h hh
  · intro c l r hok
    obtain ⟨x, hx, hr⟩ := perform_openReader_ok hok
    rw [← run_concat] at hx
    exact (cached_current faults _ hx).2 r hr

end Host

end FencedLedger
