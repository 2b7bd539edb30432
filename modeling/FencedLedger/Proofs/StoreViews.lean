import FencedLedger.Host.Use
import FencedLedger.Proofs.KeyComparison

/-!
# What actions do to keys and fenced bits

Handles and caches depend on two views of a store: the key of each ledger that
it holds, and whether it holds the ledger fenced. An action either keeps the
keys and clears no bit, or creates one ledger, which is not fenced, or removes
one ledger. Entries, confirmations and watchers leave both views alone.
-/

namespace FencedLedger

namespace Store

variable {s s' s'' : Store} {l : LedgerId}

/-- The key of a ledger, if the store holds the ledger. -/
def keyOf? (s : Store) (l : LedgerId) : Option MasterKey := (s.ledgers.get? l).map Ledger.key

/-- Whether the store holds a ledger and the ledger is fenced. -/
def holdsFenced (s : Store) (l : LedgerId) : Bool := (s.ledgers.get? l).any Ledger.fenced

theorem contains_eq_isSome_keyOf? (s : Store) (l : LedgerId) :
    s.ledgers.contains l = (s.keyOf? l).isSome := by
  simp [Table.contains, keyOf?]

theorem contains_eq_false_iff : s.ledgers.contains l = false ↔ s.keyOf? l = none := by
  rw [contains_eq_isSome_keyOf?, Option.isSome_eq_false_iff, Option.isNone_iff_eq_none]

theorem keyOf?_eq_none_iff : s.keyOf? l = none ↔ s.ledgers.get? l = none := by
  simp [keyOf?]

theorem holdsFenced_of_absent (h : s.keyOf? l = none) : s.holdsFenced l = false := by
  rw [keyOf?_eq_none_iff] at h
  simp [holdsFenced, h]

/-- Binding a ledger shows its key and its bit under its id, and nowhere else. -/
theorem keyOf?_insert (s : Store) (l l' : LedgerId) (x : Ledger) :
    ({ s with ledgers := s.ledgers.insert l x } : Store).keyOf? l' =
      if l = l' then some x.key else s.keyOf? l' := by
  unfold keyOf?
  rw [Table.get?_insert]
  split <;> rfl

theorem holdsFenced_insert (s : Store) (l l' : LedgerId) (x : Ledger) :
    ({ s with ledgers := s.ledgers.insert l x } : Store).holdsFenced l' =
      if l = l' then x.fenced else s.holdsFenced l' := by
  unfold holdsFenced
  rw [Table.get?_insert]
  split <;> rfl

/-! ### Actions that keep the ledgers -/

/-- The same ledgers under the same keys, and no fenced bit cleared. -/
structure Steady (s s' : Store) : Prop where
  subscribers : s'.subscribers = s.subscribers
  keys : ∀ l, s'.keyOf? l = s.keyOf? l
  fenced : ∀ l, s.holdsFenced l = true → s'.holdsFenced l = true

theorem Steady.refl (s : Store) : Steady s s := ⟨rfl, fun _ => rfl, fun _ h => h⟩

theorem Steady.trans (h : Steady s s') (h' : Steady s' s'') : Steady s s'' where
  subscribers := h'.subscribers.trans h.subscribers
  keys l := (h'.keys l).trans (h.keys l)
  fenced l hl := h'.fenced l (h.fenced l hl)

/-- Replacing a ledger by one with the same key, fenced if the old one was, is
steady. -/
theorem steady_insert {x y : Ledger} (hx : s.ledgers.get? l = some x) (hkey : y.key = x.key)
    (hfenced : x.fenced = true → y.fenced = true) :
    Steady s { s with ledgers := s.ledgers.insert l y } where
  subscribers := rfl
  keys l' := by
    rw [keyOf?_insert]
    split
    next h =>
      subst h
      simp [keyOf?, hx, hkey]
    next => rfl
  fenced l' h := by
    rw [holdsFenced_insert]
    split
    next hl =>
      subst hl
      exact hfenced (by simpa [holdsFenced, hx] using h)
    next => exact h

/-- Fenced bits may be set, and nothing else changes. -/
structure OnlyFences (s s' : Store) : Prop extends Steady s s' where
  same : ∀ {l x}, s.ledgers.get? l = some x →
    ∃ bit, s'.ledgers.get? l = some { x with fenced := bit }

theorem OnlyFences.refl (s : Store) : OnlyFences s s := ⟨.refl s, fun {_ x} hx => ⟨x.fenced, hx⟩⟩

theorem OnlyFences.trans (h : OnlyFences s s') (h' : OnlyFences s' s'') : OnlyFences s s'' where
  toSteady := h.toSteady.trans h'.toSteady
  same hx := by
    obtain ⟨bit, hy⟩ := h.same hx
    obtain ⟨bit', hz⟩ := h'.same hy
    exact ⟨bit', hz⟩

/-- Looking at a ledger leaves the store as it is. -/
theorem look_eq {α : Type} {f : Ledger → α} {a : α} (h : look l f s = .ok (a, s')) :
    s' = s := by
  unfold look at h
  split at h
  next => cases h
  next => cases h; rfl

theorem look_steady {α : Type} {f : Ledger → α} {a : α} (h : look l f s = .ok (a, s')) :
    Steady s s' := by
  rw [look_eq h]
  exact .refl s

/-- An action that keeps the key and clears no bit of its ledger is steady. -/
theorem change_steady {α : Type} {f : Ledger → α × Ledger} {a : α}
    (hkey : ∀ x, (f x).2.key = x.key)
    (hfenced : ∀ x, x.fenced = true → (f x).2.fenced = true)
    (h : change l f s = .ok (a, s')) : Steady s s' := by
  unfold change at h
  split at h
  next => cases h
  next x hx =>
    cases h
    exact steady_insert hx (hkey x) (hfenced x)

theorem holds_eq {b : Bool} (h : holds l s = .ok (b, s')) :
    s' = s ∧ b = s.ledgers.contains l := by
  cases h
  exact ⟨rfl, rfl⟩

/-- Reading a key answers the one that is there, and changes nothing. -/
theorem key_eq {key : MasterKey} (h : Store.key l s = .ok (key, s')) :
    s' = s ∧ s.keyOf? l = some key := by
  unfold Store.key look at h
  split at h
  next => cases h
  next x hx =>
    cases h
    exact ⟨rfl, by simp [keyOf?, hx]⟩

/-- Reading an entry changes nothing. -/
theorem entry_eq {id : EntryId} {bytes : Bytes} (h : entry l id s = .ok (bytes, s')) :
    s' = s := by
  unfold entry at h
  split at h
  next => cases h
  next =>
    split at h
    next => cases h
    next => cases h; rfl

/-- Fencing a held ledger answers whether the bit was clear, and sets it. -/
theorem fence_spec {news : Bool} (h : fence l s = .ok (news, s')) :
    OnlyFences s s' ∧ news = !s.holdsFenced l ∧ s'.holdsFenced l = true := by
  have hsteady := change_steady (fun _ => rfl) (fun _ _ => rfl) h
  unfold fence change at h
  split at h
  next => cases h
  next x hx =>
    cases h
    refine ⟨⟨hsteady, ?_⟩, by simp [holdsFenced, hx, Ledger.fence], ?_⟩
    · intro l' y hy
      rw [Table.get?_insert]
      split
      next hl =>
        subst hl
        cases hx.symm.trans hy
        exact ⟨true, rfl⟩
      next => exact ⟨y.fenced, hy⟩
    · rw [holdsFenced_insert]
      simp [Ledger.fence]

theorem unwatch_steady {watcher : Watcher} (h : unwatch l watcher s = .ok ((), s')) :
    Steady s s' := by
  unfold unwatch at h
  split at h
  next => cases h; exact .refl s
  next x hx => cases h; exact steady_insert hx rfl id

theorem watch_steady {known : EntryId} {watcher : Watcher} {b : Bool}
    (h : watch l known watcher s = .ok (b, s')) : Steady s s' := by
  refine change_steady ?_ ?_ h <;> intro x <;> unfold Ledger.watch <;> split <;> simp

theorem ledger_append_key (x : Ledger) (id : EntryId) (bytes : Bytes) :
    (x.append id bytes).2.key = x.key ∧ (x.append id bytes).2.fenced = x.fenced := by
  unfold Ledger.append
  split
  next => exact ⟨rfl, rfl⟩
  next =>
    dsimp only
    split <;> exact ⟨rfl, rfl⟩

/-- An entry that is taken passed every guard: it has a header, its id is not reserved and is
new to the ledger, which is held. The ledger takes it, and nothing else in the store changes. -/
theorem append_spec {bytes : Bytes} {r : EntryId × List Notice}
    (h : append bytes s = .ok (r, s')) :
    ∃ header x, Entry.readHeader bytes = .ok header ∧ header.isMeta = false ∧
      s.ledgers.get? header.ledger = some x ∧ x.entries.get? header.entry = none ∧
      r = (header.entry, (x.append header.entry bytes).1.map fun who =>
        ⟨who, header.ledger, (x.append header.entry bytes).2.confirmed⟩) ∧
      s' = { s with ledgers :=
        s.ledgers.insert header.ledger (x.append header.entry bytes).2 } := by
  unfold append at h
  split at h
  next => cases h
  next header hheader =>
    split at h
    next => cases h
    next huser =>
      split at h
      next => cases h
      next x hx =>
        split at h
        next => cases h
        next hnew =>
          cases h
          exact ⟨header, x, hheader, Bool.eq_false_iff.mpr huser, hx,
            by simpa [Table.contains] using hnew, rfl, rfl⟩

/-- An entry touches neither the key nor the bit of its ledger. -/
theorem append_steady {bytes : Bytes} {r : EntryId × List Notice}
    (h : append bytes s = .ok (r, s')) : Steady s s' := by
  obtain ⟨header, x, -, -, hx, -, -, rfl⟩ := append_spec h
  have hsame := ledger_append_key x header.entry bytes
  exact steady_insert hx hsame.1 fun hfenced => hsame.2.trans hfenced

/-! ### Creating and removing ledgers -/

/-- One ledger more, under a key and not fenced. -/
structure Creates (l : LedgerId) (key : MasterKey) (s s' : Store) : Prop where
  ledgers : s'.ledgers = s.ledgers.insert l (.create key)
  subscribers : s'.subscribers = s.subscribers
  absent : s.keyOf? l = none
  keys : ∀ l', s'.keyOf? l' = if l = l' then some key else s.keyOf? l'
  fenced : ∀ l', s'.holdsFenced l' = s.holdsFenced l'

/-- One ledger less. -/
structure Removes (l : LedgerId) (s s' : Store) : Prop where
  ledgers : s'.ledgers = s.ledgers.erase l
  present : (s.keyOf? l).isSome
  keys : ∀ l', s'.keyOf? l' = if l = l' then none else s.keyOf? l'
  fenced : ∀ l', s'.holdsFenced l' = if l = l' then false else s.holdsFenced l'

theorem Removes.contains (h : Removes l s s') :
    s.ledgers.contains l = true ∧ s'.ledgers.contains l = false := by
  rw [contains_eq_isSome_keyOf?, contains_eq_false_iff, h.keys, if_pos rfl]
  exact ⟨h.present, rfl⟩

/-- Binding a key creates the ledger, or finds it under the same key. -/
theorem bindKey_cases {key : MasterKey} (h : bindKey l key s = .ok ((), s')) :
    Creates l key s s' ∨ s' = s ∧ s.keyOf? l = some key := by
  unfold bindKey at h
  split at h
  next hnone =>
    cases h
    -- the new ledger is not fenced, and neither was the ledger that was not there
    refine Or.inl ⟨rfl, rfl, keyOf?_eq_none_iff.mpr hnone, ?_, ?_⟩
    · intro l'
      rw [keyOf?_insert]
      rfl
    · intro l'
      rw [holdsFenced_insert]
      split
      next hl =>
        subst hl
        rw [holdsFenced_of_absent (keyOf?_eq_none_iff.mpr hnone)]
        rfl
      next => rfl
  next x hx =>
    split at h
    next hkey =>
      cases h
      exact Or.inr ⟨rfl, by simp [keyOf?, hx, MasterKey.eq_of_accepts hkey]⟩
    next => cases h

/-- Ledgers may have been created, and the others are as they were. -/
structure Grows (s s' : Store) : Prop where
  kept : ∀ {l x}, s.ledgers.get? l = some x → s'.ledgers.get? l = some x
  fresh : ∀ {l x}, s.ledgers.get? l = none → s'.ledgers.get? l = some x → ∃ key, x = .create key

theorem grows_of_eq (h : s'.ledgers = s.ledgers) : Grows s s' where
  kept hx := by rwa [h]
  fresh hnone hx := by
    rw [h, hnone] at hx
    cases hx

theorem Grows.refl (s : Store) : Grows s s := grows_of_eq rfl

theorem Grows.trans (h : Grows s s') (h' : Grows s' s'') : Grows s s'' where
  kept hx := h'.kept (h.kept hx)
  fresh {l x} hnone hx := by
    cases hy : s'.ledgers.get? l with
    | none => exact h'.fresh hy hx
    | some y =>
        obtain rfl : y = x := Option.some.inj ((h'.kept hy).symm.trans hx)
        exact h.fresh hnone hy

theorem Creates.eq {key : MasterKey} (h : Creates l key s s') :
    s' = { s with ledgers := s.ledgers.insert l (.create key) } := by
  obtain ⟨ledgers, subscribers⟩ := s'
  have hledgers : ledgers = _ := h.ledgers
  have hsubscribers : subscribers = _ := h.subscribers
  rw [hledgers, hsubscribers]

/-- A ledger that is created was not there, and all others stay. -/
theorem Creates.grows {key : MasterKey} (h : Creates l key s s') : Grows s s' where
  kept {l' x} hx := by
    rw [h.ledgers, Table.get?_insert]
    split
    next heq =>
      subst heq
      rw [keyOf?_eq_none_iff.mp h.absent] at hx
      cases hx
    next => exact hx
  fresh {l' x} hnone hx := by
    rw [h.ledgers, Table.get?_insert] at hx
    split at hx
    next => exact ⟨key, (Option.some.inj hx).symm⟩
    next =>
      rw [hnone] at hx
      cases hx

theorem bindKey_grows {key : MasterKey} (h : bindKey l key s = .ok ((), s')) : Grows s s' := by
  rcases bindKey_cases h with hcreates | ⟨hsame, -⟩
  · exact hcreates.grows
  · exact hsame ▸ .refl s

/-- What a removal answers: the bit that the ledger had, and the subscribers who are there. -/
theorem remove_spec {present : Subscriber → Bool} {wasFenced : Bool}
    {subscribers : List Subscriber}
    (h : remove present l s = .ok ((wasFenced, subscribers), s')) :
    Removes l s s' ∧ wasFenced = s.holdsFenced l ∧
      subscribers = s.subscribers.filter present ∧ s'.subscribers = subscribers := by
  unfold remove at h
  split at h
  next => cases h
  next x hx =>
    cases h
    refine ⟨⟨rfl, by simp [keyOf?, hx], ?_, ?_⟩, by simp [holdsFenced, hx], rfl, rfl⟩
    · intro l'
      unfold keyOf?
      rw [Table.get?_erase]
      split <;> rfl
    · intro l'
      unfold holdsFenced
      rw [Table.get?_erase]
      split <;> rfl

/-! ### Requests -/

/-- What an action answers is made of its result. -/
theorem answering_ok {α : Type} {action : StoreAction α} {f : α → Answer} {a : Answer}
    (h : Request.answering action f s = .ok (a, s')) :
    ∃ x, action s = .ok (x, s') ∧ a = f x := by
  unfold Request.answering at h
  cases hact : action s with
  | error e => rw [hact] at h; cases h
  | ok r =>
      rw [hact] at h
      cases h
      exact ⟨r.1, rfl, rfl⟩

/-- What a request that is answered did to the store: the action that changes it, if the
request has one. -/
inductive RequestChange (s : Store) : Request → Store → Prop
  | none (r : Request) : RequestChange s r s
  | bindKey {l secret s'} (h : bindKey l ⟨secret⟩ s = .ok ((), s')) :
      RequestChange s (.bindKey l secret) s'
  | fence {l b s'} (h : fence l s = .ok (b, s')) : RequestChange s (.fence l) s'
  | noteConfirmed {l stated s'} (h : noteConfirmed l stated s = .ok ((), s')) :
      RequestChange s (.noteConfirmed l stated) s'
  | watch {l known watcher b s'} (h : watch l known watcher s = .ok (b, s')) :
      RequestChange s (.watch l known watcher) s'
  | unwatch {l watcher s'} (h : unwatch l watcher s = .ok ((), s')) :
      RequestChange s (.unwatch l watcher) s'

/-- What a request does to keys and bits, if the store answers it. -/
theorem request_change {r : Request} {a : Answer} (h : r.action s = .ok (a, s')) :
    RequestChange s r s' := by
  cases r <;> simp only [Request.action] at h <;> obtain ⟨_, hact, -⟩ := answering_ok h
  case bindKey => exact .bindKey hact
  case fence => exact .fence hact
  case noteConfirmed => exact .noteConfirmed hact
  case watch => exact .watch hact
  case unwatch => exact .unwatch hact
  case holds => exact (holds_eq hact).1 ▸ .none _
  case entry => exact entry_eq hact ▸ .none _
  case key | isFenced | notedConfirmed | confirmed | entryIds => exact look_eq hact ▸ .none _

/-- A request creates the ledger whose key it binds, or is steady. -/
theorem request_cases {r : Request} {a : Answer} (h : r.action s = .ok (a, s')) :
    Steady s s' ∨ ∃ l secret, r = .bindKey l secret ∧ Creates l ⟨secret⟩ s s' := by
  cases request_change h with
  | none r => exact Or.inl (.refl s)
  | @bindKey l secret _ hact =>
      rcases bindKey_cases hact with hcreates | ⟨hsame, -⟩
      · exact Or.inr ⟨l, secret, rfl, hcreates⟩
      · exact Or.inl (hsame ▸ .refl s)
  | fence hact => exact Or.inl (fence_spec hact).1.toSteady
  | noteConfirmed hact => exact Or.inl (change_steady (fun _ => rfl) (fun _ hx => hx) hact)
  | watch hact => exact Or.inl (watch_steady hact)
  | unwatch hact => exact Or.inl (unwatch_steady hact)

end Store

end FencedLedger
