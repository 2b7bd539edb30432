import FencedLedger.Proofs.CacheCoherence

/-!
# Handles that caches hand out

A cache hands out the handle that it has of a ledger, or one that it makes and keeps
from then on. It lets go of it when it is told that the ledger was deleted, and at no
other time. The history of a host says in order what its caches handed out and what
they were told, also from within deletions. Two handles in it are the same just when
the cache was told nothing of their ledger in between. Callers that a look-up refuses
leave no trace in it.
-/

namespace FencedLedger

/-- Something that happened at a cache. -/
inductive Served where
  | handed (kind : HandleKind) (c : Nat) (l : LedgerId) (id : Nat)
  | told (c : Nat) (l : LedgerId)
  deriving DecidableEq

/-- A cache hands out one handle of a ledger from one deletion to the next. -/
structure OneHandle (history : List Served) : Prop where
  same_iff : ∀ {before between after kind c l id id'},
    history = before ++ .handed kind c l id :: between ++ .handed kind c l id' :: after →
      (id = id' ↔ .told c l ∉ between)
  /-- Other ledgers and other caches have other handles. -/
  apart : ∀ {kind c c' l l' id}, .handed kind c l id ∈ history →
    .handed kind c' l' id ∈ history → c = c' ∧ l = l'

namespace Cache

/-- The handle that a cache has of a ledger. -/
def cached? (x : Cache) : HandleKind → LedgerId → Option Nat
  | .writable, l => x.writable.get? l
  | .readOnly, l => x.readers.get? l

theorem cached?_addWritable (x : Cache) (kind : HandleKind) (l l' : LedgerId) (h : Nat) :
    (x.addWritable l h).cached? kind l' =
      if .writable = kind ∧ l = l' then some h else x.cached? kind l' := by
  cases kind with
  | writable => simp [cached?, addWritable, Table.get?_insert]
  | readOnly => simp [cached?, addWritable]

theorem cached?_addReader (x : Cache) (kind : HandleKind) (l l' : LedgerId) (r : Nat) :
    (x.addReader l r).cached? kind l' =
      if .readOnly = kind ∧ l = l' then some r else x.cached? kind l' := by
  cases kind with
  | writable => simp [cached?, addReader]
  | readOnly => simp [cached?, addReader, Table.get?_insert]

end Cache

namespace Host

variable {w w' : Host} {history : List Served} {kind : HandleKind} {c : Nat} {l : LedgerId}
  {id : Nat}

/-! ### Histories -/

/-- What a look-up hands out, if it succeeds. -/
def handing (w : Host) (kind : HandleKind) (c : Nat) (l : LedgerId) :
    Except HandleError Nat → List Served
  | .ok id => if w.caches.holds c then [.handed kind c l id] else []
  | .error _ => []

/-- What happens at caches when a subscriber is told of a deletion. -/
def servedTo (w : Host) (l : LedgerId) : Subscriber → List Served
  | .cache c => [.told c l]
  | .observer o =>
      match (w.observers.get? o).bind Observer.reopening with
      | none => []
      | some r => w.handing .writable r.cache l (w.openWritable r.cache l r.key r.replay).1

/-- What happens at caches while subscribers are told, one after the other. -/
def servedTelling (l : LedgerId) (wasFenced : Bool) : Host → List Subscriber → List Served
  | _, [] => []
  | w, who :: subscribers =>
      w.servedTo l who ++ servedTelling l wasFenced (tellSubscriber l wasFenced w who) subscribers

/-- What happens at caches during an operation. -/
def servedBy (w : Host) : Op → List Served
  | .openWritable c l presented replay =>
      w.handing .writable c l (w.openWritable c l presented replay).1
  | .openReader c l => w.handing .readOnly c l (w.openReader c l).1
  | .tellCache c l _ => if w.caches.holds c then [.told c l] else []
  | .remove access l =>
      match w.send access .remove (Store.remove w.isPresent l) with
      | (.error _, _) => []
      | (.ok (wasFenced, subscribers), w) => servedTelling l wasFenced w subscribers
  | _ => []

/-! ### What caches have -/

/-- The handle that a cache has of a ledger. -/
def cached? (w : Host) (kind : HandleKind) (c : Nat) (l : LedgerId) : Option Nat :=
  (w.caches.get? c).bind fun x => x.cached? kind l

/-- The number of the next handle. -/
def nextHandle (w : Host) : HandleKind → Nat
  | .writable => w.handles.next
  | .readOnly => w.readers.next

/-- The host held the cache and has let go of it. -/
def Gone (w : Host) (c : Nat) : Prop := w.caches.get? c = none ∧ c < w.caches.next

theorem not_gone_of_cached (h : w.cached? kind c l = some id) : ¬ w.Gone c := by
  rintro ⟨hnone, -⟩
  simp [cached?, hnone] at h

/-- What caches have is on record, and what is on record they have until they are told
that it is gone. -/
structure Serves (history : List Served) (w : Host) : Prop where
  law : OneHandle history
  handed_lt : ∀ {kind c l id}, .handed kind c l id ∈ history → id < w.nextHandle kind
  cached_lt : ∀ {kind c l id}, w.cached? kind c l = some id → id < w.nextHandle kind
  places : ∀ {kind c c' l l' id}, w.cached? kind c l = some id →
    w.cached? kind c' l' = some id → c = c' ∧ l = l'
  own : ∀ {kind c c' l l' id}, w.cached? kind c l = some id →
    .handed kind c' l' id ∈ history → c = c' ∧ l = l'
  kept : ∀ {before after kind c l id}, w.cached? kind c l = some id →
    history = before ++ .handed kind c l id :: after → .told c l ∉ after
  lasting : ∀ {before after kind c l id}, history = before ++ .handed kind c l id :: after →
    .told c l ∉ after → w.cached? kind c l = some id ∨ w.Gone c

/-- At the start nobody was handed anything. -/
theorem start_serves (faults : Option FaultPlan) : Serves [] (start faults) where
  law := ⟨by simp, by simp⟩
  handed_lt := by simp
  cached_lt h := by cases h
  places h := by cases h
  own h := by cases h
  kept h := by cases h
  lasting := by simp

/-! ### Nothing is handed out -/

/-- Handles may be made and caches may come and go. Those that stay have what they had. -/
structure KeepsHandles (w w' : Host) : Prop where
  handles_le : ∀ kind, w.nextHandle kind ≤ w'.nextHandle kind
  caches_le : w.caches.next ≤ w'.caches.next
  kept : ∀ {c y}, w'.caches.get? c = some y →
    (∃ x, w.caches.get? c = some x ∧ ∀ kind l, y.cached? kind l = x.cached? kind l) ∨
      w.caches.next ≤ c ∧ ∀ kind l, y.cached? kind l = none

theorem keepsHandles_of_eq (hhandles : w.handles.next ≤ w'.handles.next)
    (hreaders : w.readers.next ≤ w'.readers.next) (hcaches : w'.caches = w.caches) :
    KeepsHandles w w' where
  handles_le kind := by
    cases kind with
    | writable => exact hhandles
    | readOnly => exact hreaders
  caches_le := Nat.le_of_eq (congrArg Arena.next hcaches).symm
  kept hy := Or.inl ⟨_, hcaches ▸ hy, fun _ _ => rfl⟩

theorem StoreOnly.keepsHandles (h : StoreOnly w w') : KeepsHandles w w' :=
  keepsHandles_of_eq (Nat.le_of_eq (congrArg Arena.next h.handles).symm)
    (Nat.le_of_eq (congrArg Arena.next h.readers).symm) h.caches

theorem Idle.keepsHandles (h : Idle w w') : KeepsHandles w w' := h.storeOnly.keepsHandles

theorem KeepsHandles.of_cached (h : KeepsHandles w w') (hcached : w'.cached? kind c l = some id) :
    w.cached? kind c l = some id := by
  obtain ⟨y, hy, hget⟩ := Option.bind_eq_some_iff.mp hcached
  rcases h.kept hy with ⟨x, hx, hsame⟩ | ⟨-, hnone⟩
  · exact Option.bind_eq_some_iff.mpr ⟨x, hx, (hsame kind l).symm.trans hget⟩
  · cases (hnone kind l).symm.trans hget

/-- What a cache held it still holds, unless the cache itself is gone. -/
theorem KeepsHandles.cached (h : KeepsHandles w w') (hcached : w.cached? kind c l = some id) :
    w'.cached? kind c l = some id ∨ w'.Gone c := by
  obtain ⟨x, hx, hget⟩ := Option.bind_eq_some_iff.mp hcached
  have hknown : c < w.caches.next := by
    refine Nat.lt_of_not_le fun hle => ?_
    cases (w.caches.get?_of_next_le hle).symm.trans hx
  cases hy : w'.caches.get? c with
  | none => exact Or.inr ⟨hy, Nat.lt_of_lt_of_le hknown h.caches_le⟩
  | some y =>
      rcases h.kept hy with ⟨x', hx', hsame⟩ | ⟨hnew, -⟩
      · obtain rfl : x = x' := Option.some.inj (hx.symm.trans hx')
        exact Or.inl (Option.bind_eq_some_iff.mpr ⟨y, hy, (hsame kind l).trans hget⟩)
      · exact absurd hknown (Nat.not_lt_of_le hnew)

/-- A cache that is gone does not come back. -/
theorem KeepsHandles.gone (h : KeepsHandles w w') (hgone : w.Gone c) : w'.Gone c := by
  refine ⟨?_, Nat.lt_of_lt_of_le hgone.2 h.caches_le⟩
  cases hy : w'.caches.get? c with
  | none => rfl
  | some y =>
      rcases h.kept hy with ⟨x, hx, -⟩ | ⟨hnew, -⟩
      · cases hgone.1.symm.trans hx
      · exact absurd hgone.2 (Nat.not_lt_of_le hnew)

/-- Where nothing is cached and nothing dropped, the history says what it said. -/
theorem Serves.keeps (h : Serves history w) (hkeeps : KeepsHandles w w') :
    Serves history w' where
  law := h.law
  handed_lt hmem := Nat.lt_of_lt_of_le (h.handed_lt hmem) (hkeeps.handles_le _)
  cached_lt hcached :=
    Nat.lt_of_lt_of_le (h.cached_lt (hkeeps.of_cached hcached)) (hkeeps.handles_le _)
  places hcached hcached' := h.places (hkeeps.of_cached hcached) (hkeeps.of_cached hcached')
  own hcached := h.own (hkeeps.of_cached hcached)
  kept hcached := h.kept (hkeeps.of_cached hcached)
  lasting hsplit huntold := by
    rcases h.lasting hsplit huntold with hcached | hgone
    · exact hkeeps.cached hcached
    · exact Or.inr (hkeeps.gone hgone)

theorem Members.keepsHandles (h : Members w w') : KeepsHandles w w' where
  handles_le kind := by cases kind <;> simp [nextHandle, h.handles, h.readers]
  caches_le := h.next_le
  kept hy := by
    rcases h.caches hy with hx | ⟨hnew, config, rfl⟩
    · exact Or.inl ⟨_, hx, fun _ _ => rfl⟩
    · exact Or.inr ⟨hnew, fun kind l => by cases kind <;> rfl⟩

/-- Remembering a deletion drops no handle. -/
theorem rememberDeletion_keepsHandles (w : Host) (c : Nat) (l : LedgerId) :
    KeepsHandles w (w.rememberDeletion c l) := by
  obtain ⟨memory, metrics, heq⟩ := rememberDeletion_eq w c l
  rw [heq]
  refine ⟨fun kind => ?_, Nat.le_of_eq (Arena.next_modify ..).symm, fun {c' y} hy => ?_⟩
  · cases kind <;> exact Nat.le_refl _
  · change (w.caches.modify c _).get? c' = some y at hy
    rw [Arena.get?_modify] at hy
    split at hy
    next hsame =>
      obtain ⟨x, hx, rfl⟩ := Option.map_eq_some_iff.mp hy
      have hat : w.cacheAt c = x := cacheAt_of_get? (hsame ▸ hx)
      exact Or.inl ⟨x, hx, fun kind l => by rw [hat]; cases kind <;> rfl⟩
    next => exact Or.inl ⟨y, hy, fun _ _ => rfl⟩

/-! ### A handle is made and kept -/

/-- A cache has one more handle than before, which is new. -/
structure Gains (kind : HandleKind) (c : Nat) (l : LedgerId) (w w' : Host) : Prop where
  fresh : w.nextHandle kind < w'.nextHandle kind
  handles_le : ∀ kind, w.nextHandle kind ≤ w'.nextHandle kind
  absent : w.cached? kind c l = none
  cached : ∀ kind' c' l', w'.cached? kind' c' l' =
    if kind = kind' ∧ c = c' ∧ l = l' then some (w.nextHandle kind) else w.cached? kind' c' l'
  gone : ∀ {c'}, w.Gone c' → w'.Gone c'

/-- A handle that is cached anew has a number that nobody was handed before. -/
theorem Serves.gains (h : Serves history w) (hgains : Gains kind c l w w') :
    Serves history w' := by
  have hcases : ∀ {kind' c' l' id}, w'.cached? kind' c' l' = some id →
      (kind = kind' ∧ c = c' ∧ l = l') ∧ id = w.nextHandle kind ∨
        w.cached? kind' c' l' = some id := by
    intro kind' c' l' id hcached
    rw [hgains.cached] at hcached
    split at hcached
    next hplace => exact Or.inl ⟨hplace, (Option.some.inj hcached).symm⟩
    next => exact Or.inr hcached
  constructor
  case law => exact h.law
  case handed_lt =>
    exact fun hmem => Nat.lt_of_lt_of_le (h.handed_lt hmem) (hgains.handles_le _)
  case cached_lt =>
    intro kind' c' l' id hcached
    rcases hcases hcached with ⟨⟨rfl, -, -⟩, rfl⟩ | hbefore
    · exact hgains.fresh
    · exact Nat.lt_of_lt_of_le (h.cached_lt hbefore) (hgains.handles_le _)
  case places =>
    intro kind' c₁ c₂ l₁ l₂ id hcached hcached'
    rcases hcases hcached with ⟨⟨rfl, rfl, rfl⟩, rfl⟩ | hbefore <;>
      rcases hcases hcached' with ⟨⟨hkind, hc, hl⟩, hid⟩ | hbefore'
    · exact ⟨hc, hl⟩
    · exact absurd (h.cached_lt hbefore') (Nat.lt_irrefl _)
    · subst hkind hid
      exact absurd (h.cached_lt hbefore) (Nat.lt_irrefl _)
    · exact h.places hbefore hbefore'
  case own =>
    intro kind' c₁ c₂ l₁ l₂ id hcached hmem
    rcases hcases hcached with ⟨⟨rfl, -, -⟩, rfl⟩ | hbefore
    · exact absurd (h.handed_lt hmem) (Nat.lt_irrefl _)
    · exact h.own hbefore hmem
  case kept =>
    intro before after kind' c' l' id hcached hsplit
    rcases hcases hcached with ⟨⟨rfl, -, -⟩, rfl⟩ | hbefore
    · -- if it had been handed out, its number would be below the next one
      have hmem : .handed kind c' l' (w.nextHandle kind) ∈ history := by simp [hsplit]
      exact absurd (h.handed_lt hmem) (Nat.lt_irrefl _)
    · exact h.kept hbefore hsplit
  case lasting =>
    intro before after kind' c' l' id hsplit huntold
    rcases h.lasting hsplit huntold with hcached | hgone
    · left
      rw [hgains.cached, if_neg]
      · exact hcached
      · rintro ⟨rfl, rfl, rfl⟩
        cases hgains.absent.symm.trans hcached
    · exact Or.inr (hgains.gone hgone)

/-- A look-up that makes a handle keeps it in its cache, if the host holds the cache. -/
theorem Serves.makes {f : Cache → Cache} (h : Serves history w) (kind : HandleKind)
    (l : LedgerId) (hfresh : w.nextHandle kind < w'.nextHandle kind)
    (hle : ∀ kind, w.nextHandle kind ≤ w'.nextHandle kind)
    (hcaches : w'.caches = w.caches.modify c f)
    (huncached : (w.cacheAt c).cached? kind l = none)
    (hf : ∀ x kind' l', (f x).cached? kind' l' =
      if kind = kind' ∧ l = l' then some (w.nextHandle kind) else x.cached? kind' l') :
    Serves history w' := by
  have hget : ∀ c', w'.caches.get? c' =
      if c = c' then (w.caches.get? c').map f else w.caches.get? c' := fun c' => by
    rw [hcaches, Arena.get?_modify]
  have hnext : w'.caches.next = w.caches.next := by rw [hcaches, Arena.next_modify]
  cases hx : w.caches.get? c with
  | none =>
      -- without the cache, the new handle is kept nowhere
      refine h.keeps ⟨hle, Nat.le_of_eq hnext.symm, fun {c' y} hy => ?_⟩
      rw [hget] at hy
      split at hy
      next heq => simp [← heq, hx] at hy
      next => exact Or.inl ⟨y, hy, fun _ _ => rfl⟩
  | some x =>
      have hat := cacheAt_of_get? hx
      rw [hat] at huncached
      suffices hgains : Gains kind c l w w' from h.gains hgains
      refine ⟨hfresh, hle, ?_, ?_, ?_⟩
      · simpa [cached?, hx] using huncached
      · intro kind' c' l'
        unfold cached?
        rw [hget]
        by_cases heq : c = c'
        · subst heq
          simp [hx, hf]
        · simp [heq]
      · rintro c' ⟨hnone, hlt⟩
        refine ⟨?_, hnext ▸ hlt⟩
        rw [hget]
        simp [hnone]

/-- A look-up that makes a handle or finds one keeps the history right. -/
theorem Serves.opens {presented : Bytes} (h : Serves history w)
    (hopens : Opens c l presented w w') : Serves history w' := by
  cases hopens with
  | idle hidle => exact h.keeps hidle.keepsHandles
  | makes hmade huncached hcaches =>
      obtain ⟨ack, hadd⟩ := hmade.handles
      refine h.makes .writable l ?_ ?_ hcaches huncached ?_
      · simp [nextHandle, hadd]
      · intro kind
        cases kind <;> simp [nextHandle, hadd, hmade.readers]
      · exact fun x kind l' => x.cached?_addWritable kind l l' _

/-- A look-up that makes a reader or finds one keeps the history right. -/
theorem Serves.opensReader (h : Serves history w) (hopens : OpensReader c l w w') :
    Serves history w' := by
  cases hopens with
  | idle hidle => exact h.keeps hidle.keepsHandles
  | makes _ honly _ huncached =>
      refine h.makes .readOnly l ?_ ?_ honly.caches huncached ?_
      · simp [nextHandle, honly.readers]
      · intro kind
        cases kind <;> simp [nextHandle, honly.readers, honly.handles]
      · exact fun x kind l' => x.cached?_addReader kind l l' _

/-! ### A handle is handed out -/

/-- A cache may hand out what it has. -/
theorem Serves.hands (h : Serves history w) (hcached : w.cached? kind c l = some id) :
    Serves (history ++ [.handed kind c l id]) w := by
  have hmem : ∀ {kind' c' l' id'},
      Served.handed kind' c' l' id' ∈ history ++ [.handed kind c l id] →
        .handed kind' c' l' id' ∈ history ∨
          kind' = kind ∧ c' = c ∧ l' = l ∧ id' = id := by simp
  constructor
  case law =>
    refine ⟨?_, ?_⟩
    · intro before between after kind' c' l' id₁ id₂ hsplit
      rcases concat_eq_append_cons hsplit with ⟨-, hbefore, hlast⟩ | ⟨rest, -, hbefore⟩
      · -- the later of the two is the one that is handed out now
        cases hlast
        constructor
        · rintro rfl
          exact h.kept hcached hbefore
        · intro huntold
          have hstill := (h.lasting hbefore huntold).resolve_right (not_gone_of_cached hcached)
          exact Option.some.inj (hstill.symm.trans hcached)
      · exact h.law.same_iff hbefore
    · intro kind' c₁ c₂ l₁ l₂ id' hhanded hhanded'
      rcases hmem hhanded with hbefore | ⟨rfl, rfl, rfl, rfl⟩ <;>
        rcases hmem hhanded' with hbefore' | ⟨hkind, rfl, rfl, hid⟩
      · exact h.law.apart hbefore hbefore'
      · subst hkind hid
        exact (h.own hcached hbefore).imp Eq.symm Eq.symm
      · exact h.own hcached hbefore'
      · exact ⟨rfl, rfl⟩
  case handed_lt =>
    intro kind' c' l' id' hhanded
    rcases hmem hhanded with hbefore | ⟨rfl, rfl, rfl, rfl⟩
    · exact h.handed_lt hbefore
    · exact h.cached_lt hcached
  case cached_lt => exact h.cached_lt
  case places => exact h.places
  case own =>
    intro kind' c₁ c₂ l₁ l₂ id' hcached' hhanded
    rcases hmem hhanded with hbefore | ⟨rfl, rfl, rfl, rfl⟩
    · exact h.own hcached' hbefore
    · exact h.places hcached' hcached
  case kept =>
    intro before after kind' c' l' id' hcached' hsplit
    rcases concat_eq_append_cons hsplit with ⟨rfl, -, -⟩ | ⟨rest, rfl, hbefore⟩
    · exact List.not_mem_nil
    · simpa using h.kept hcached' hbefore
  case lasting =>
    intro before after kind' c' l' id' hsplit huntold
    rcases concat_eq_append_cons hsplit with ⟨-, -, hlast⟩ | ⟨rest, rfl, hbefore⟩
    · cases hlast
      exact Or.inl hcached
    · exact h.lasting hbefore fun htold => huntold (List.mem_append_left _ htold)

/-- What a look-up hands out was in its cache by then. -/
theorem Serves.handing {answer : Except HandleError Nat} (h : Serves history w')
    (hcached : ∀ id, w.caches.holds c = true → answer = .ok id →
      ∃ x, w'.caches.get? c = some x ∧ x.cached? kind l = some id) :
    Serves (history ++ w.handing kind c l answer) w' := by
  unfold Host.handing
  split
  next id =>
    split
    next hheld =>
      obtain ⟨x, hx, hget⟩ := hcached id hheld rfl
      exact h.hands (Option.bind_eq_some_iff.mpr ⟨x, hx, hget⟩)
    next => rwa [List.append_nil]
  next => rwa [List.append_nil]

theorem Serves.openWritable (h : Serves history w) (c : Nat) (l : LedgerId) (presented : Bytes)
    (replay : Bool) :
    Serves (history ++ w.handing .writable c l (w.openWritable c l presented replay).1)
      (w.openWritable c l presented replay).2 :=
  (h.opens (openWritable_opens w c l presented replay)).handing fun _ => openWritable_cached

theorem Serves.openReader (h : Serves history w) (c : Nat) (l : LedgerId) :
    Serves (history ++ w.handing .readOnly c l (w.openReader c l).1) (w.openReader c l).2 :=
  (h.opensReader (openReader_opens w c l)).handing fun _ => openReader_cached

/-! ### A cache is told -/

/-- A cache that drops what it holds of a ledger holds the rest. -/
theorem Drops.cached? (h : Drops c l w w') (kind : HandleKind) (c' : Nat) (l' : LedgerId) :
    w'.cached? kind c' l' = if c = c' ∧ l = l' then none else w.cached? kind c' l' := by
  by_cases hc : c = c'
  · subst hc
    cases hy : w'.caches.get? c with
    | none =>
        have hnone : w.caches.get? c = none := by
          have hheld := h.held c
          simpa [Arena.holds, hy] using hheld.symm
        simp [Host.cached?, hy, hnone]
    | some y =>
        obtain ⟨x, hx, hwritable, hreaders⟩ := h.dropped y hy
        cases kind <;>
          simp [Host.cached?, Cache.cached?, hy, hx, hwritable, hreaders, Table.get?_erase]
  · simp [Host.cached?, hc, h.others c' hc]

theorem Drops.gone {c' : Nat} (h : Drops c l w w') (hnext : w'.caches.next = w.caches.next)
    (hgone : w.Gone c') : w'.Gone c' := by
  refine ⟨?_, hnext ▸ hgone.2⟩
  have hheld := h.held c'
  simpa [Arena.holds, hgone.1] using hheld

/-- From now on the ledger has another handle, and the history says that the cache was told. -/
theorem Serves.drops (h : Serves history w) (hdrops : Drops c l w w')
    (hnext : w'.caches.next = w.caches.next) : Serves (history ++ [.told c l]) w' := by
  have hhandles : ∀ kind, w'.nextHandle kind = w.nextHandle kind := fun kind => by
    cases kind <;> simp [nextHandle, hdrops.handles, hdrops.readers]
  have hmem : ∀ {kind' c' l' id'}, Served.handed kind' c' l' id' ∈ history ++ [.told c l] →
      .handed kind' c' l' id' ∈ history := by simp
  have hbefore : ∀ {kind' c' l' id'}, w'.cached? kind' c' l' = some id' →
      w.cached? kind' c' l' = some id' ∧ ¬ (c = c' ∧ l = l') := by
    intro kind' c' l' id' hcached
    rw [hdrops.cached?] at hcached
    split at hcached
    next => cases hcached
    next hother => exact ⟨hcached, hother⟩
  constructor
  case law =>
    refine ⟨?_, fun hhanded hhanded' => h.law.apart (hmem hhanded) (hmem hhanded')⟩
    intro before between after kind' c' l' id₁ id₂ hsplit
    rcases concat_eq_append_cons hsplit with ⟨-, -, hlast⟩ | ⟨rest, -, hsplit'⟩
    · cases hlast
    · exact h.law.same_iff hsplit'
  case handed_lt => exact fun hhanded => hhandles _ ▸ h.handed_lt (hmem hhanded)
  case cached_lt => exact fun hcached => hhandles _ ▸ h.cached_lt (hbefore hcached).1
  case places =>
    exact fun hcached hcached' => h.places (hbefore hcached).1 (hbefore hcached').1
  case own => exact fun hcached hhanded => h.own (hbefore hcached).1 (hmem hhanded)
  case kept =>
    intro before after kind' c' l' id' hcached hsplit
    obtain ⟨hcached, hother⟩ := hbefore hcached
    rcases concat_eq_append_cons hsplit with ⟨-, -, hlast⟩ | ⟨rest, rfl, hsplit'⟩
    · cases hlast
    · intro htold
      rcases List.mem_append.mp htold with htold | htold
      · exact h.kept hcached hsplit' htold
      · -- what the cache still has is not what it was told of
        cases List.mem_singleton.mp htold
        exact hother ⟨rfl, rfl⟩
  case lasting =>
    intro before after kind' c' l' id' hsplit huntold
    rcases concat_eq_append_cons hsplit with ⟨-, -, hlast⟩ | ⟨rest, rfl, hsplit'⟩
    · cases hlast
    · have hother : ¬ (c = c' ∧ l = l') := by
        rintro ⟨rfl, rfl⟩
        exact huntold (List.mem_append_right _ (List.mem_singleton_self _))
      rw [hdrops.cached?, if_neg hother]
      have huntold' : Served.told c' l' ∉ rest := fun htold =>
        huntold (List.mem_append_left _ htold)
      exact (h.lasting hsplit' huntold').imp_right (hdrops.gone hnext)

theorem dropHandles_next (w : Host) (c : Nat) (l : LedgerId) :
    (w.dropHandles c l).caches.next = w.caches.next :=
  Arena.next_modify ..

theorem tellCache_next (w : Host) (c : Nat) (l : LedgerId) (wasFenced : Bool) :
    (w.tellCache c l wasFenced).caches.next = w.caches.next := by
  unfold tellCache
  dsimp only
  rw [dropHandles_next]
  split
  next =>
    obtain ⟨memory, metrics, heq⟩ := rememberDeletion_eq w c l
    rw [heq]
    exact Arena.next_modify ..
  next => rfl

theorem Serves.tellCache (h : Serves history w) (c : Nat) (l : LedgerId) (wasFenced : Bool) :
    Serves (history ++ [.told c l]) (w.tellCache c l wasFenced) :=
  h.drops (tellCache_drops w c l wasFenced) (tellCache_next w c l wasFenced)

/-- An observer that looks the ledger up is handed a handle in the midst of the deletion. -/
theorem Serves.tellSubscriber (h : Serves history w) (l : LedgerId) (wasFenced : Bool)
    (who : Subscriber) :
    Serves (history ++ w.servedTo l who) (tellSubscriber l wasFenced w who) := by
  cases who with
  | cache c => exact h.tellCache c l wasFenced
  | observer o =>
      unfold Host.tellSubscriber servedTo
      dsimp only
      cases w.observers.get? o with
      | none =>
          rw [Option.bind_none, List.append_nil]
          exact h
      | some observer =>
          change Serves (history ++ match observer.reopening with | none => [] | some r => _)
            (w.tellObserver observer l wasFenced)
          unfold tellObserver
          cases observer.reopening with
          | none =>
              rw [List.append_nil]
              exact h.keeps (emit_idle w rfl).keepsHandles
          | some r =>
              exact (h.openWritable r.cache l r.key r.replay).keeps
                (emit_idle _ rfl).keepsHandles

/-- Each subscriber may be a cache that drops, or an observer that is handed something. -/
theorem Serves.telling (h : Serves history w) (l : LedgerId) (wasFenced : Bool)
    (subscribers : List Subscriber) :
    Serves (history ++ servedTelling l wasFenced w subscribers)
      (subscribers.foldl (Host.tellSubscriber l wasFenced) w) := by
  induction subscribers generalizing w history with
  | nil =>
      rw [servedTelling, List.append_nil]
      exact h
  | cons who subscribers ih =>
      rw [servedTelling, ← List.append_assoc]
      exact ih (h.tellSubscriber l wasFenced who)

/-! ### Operations -/

/-- Operations that tell caches of no deletion evict nothing. -/
theorem Effect.serves {op : Op} {removed : Option LedgerId} (heffect : Effect op w w' removed)
    (hop : op.tellsDeletion = false) (h : Serves history w) : Serves history w' := by
  cases heffect with
  | idle hidle => exact h.keeps hidle.keepsHandles
  | steady _ hsteady =>
      exact h.keeps (keepsHandles_of_eq (by simp [hsteady.handles]) (by simp [hsteady.readers])
        hsteady.caches)
  | fences _ hfences =>
      exact h.keeps (keepsHandles_of_eq (by simp [hfences.next]) (by simp [hfences.readers])
        hfences.caches)
  | creates honly _ => exact h.keeps honly.keepsHandles
  | makesHandle hmade hcaches =>
      obtain ⟨ack, hadd⟩ := hmade.handles
      exact h.keeps (keepsHandles_of_eq (by simp [hadd]) (by simp [hmade.readers]) hcaches)
  | makesReader honly _ =>
      exact h.keeps (keepsHandles_of_eq (by simp [honly.handles]) (by simp [honly.readers])
        honly.caches)
  | opens hopens => exact h.opens hopens
  | opensReader hopens => exact h.opensReader hopens
  | drops htells _ | removes htells _ _ _ _ =>
      rw [htells] at hop
      cases hop
  | members hmembers => exact h.keeps hmembers.keepsHandles

/-- A deletion tells the caches in the order in which they subscribed. -/
theorem Serves.remove (h : Serves history w) (access : Access) (l : LedgerId) :
    Serves (history ++ w.servedBy (.remove access l)) (w.remove access l).2 := by
  unfold servedBy Host.remove
  dsimp only
  cases hsend : w.send access .remove (Store.remove w.isPresent l) with
  | mk answer w₁ =>
      cases answer with
      | error e => simpa using h.keeps (send_error hsend).keepsHandles
      | ok told => exact (h.keeps (send_ok hsend).2.keepsHandles).telling l told.1 told.2

theorem handing_of_not_held {answer : Except HandleError Nat} (h : ¬ w.caches.holds c = true) :
    w.handing kind c l answer = [] := by
  unfold handing
  split
  next => exact if_neg h
  next => rfl

/-- Look-ups hand out, deletions tell, and other operations do neither. -/
theorem Serves.perform (h : Serves history w) (op : Op) :
    Serves (history ++ w.servedBy op) (w.perform op).2 := by
  cases op with
  | openWritable c l presented replay =>
      change Serves (history ++ w.handing _ _ _ _) (w.whenHeld _ _).2
      by_cases hheld : w.caches.holds c = true
      · rw [whenHeld, if_pos hheld, answer_host]
        exact h.openWritable c l presented replay
      · rw [whenHeld, if_neg hheld, handing_of_not_held hheld, List.append_nil]
        exact h
  | openReader c l =>
      change Serves (history ++ w.handing _ _ _ _) (w.whenHeld _ _).2
      by_cases hheld : w.caches.holds c = true
      · rw [whenHeld, if_pos hheld, answer_host]
        exact h.openReader c l
      · rw [whenHeld, if_neg hheld, handing_of_not_held hheld, List.append_nil]
        exact h
  | tellCache c l wasFenced =>
      change Serves (history ++ if w.caches.holds c then _ else _) (w.whenHeld _ _).2
      by_cases hheld : w.caches.holds c = true
      · rw [whenHeld, if_pos hheld, if_pos hheld]
        exact h.tellCache c l wasFenced
      · rw [whenHeld, if_neg hheld, if_neg hheld, List.append_nil]
        exact h
  | remove access l =>
      unfold Host.perform
      rw [answer_host]
      exact h.remove access l
  | _ =>
      change Serves (history ++ []) _
      rw [List.append_nil]
      exact (perform_effect w _).serves rfl h

end Host

end FencedLedger
