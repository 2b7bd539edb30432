import FencedLedger.Proofs.DeletionHistory

/-!
# What a full memory gives up

A memory that has reached its capacity drops what has expired, and then, if it is still
full, the deletions with the earliest instants. How many of these it evicts is reckoned
from its size alone, before any of them is gone, and the reckoned number is what is
counted. Nothing is assumed of what the memory holds: it may be larger than its
capacity, and some of it may have expired long ago.
-/

namespace FencedLedger

namespace Deletion

variable {ttl capacity now : Nat} {held expired left evicted kept : List Deletion}

/-- Of the deletions that are held some are dropped as expired, and the others are left. -/
structure Expiry (ttl capacity now : Nat) (held expired left : List Deletion) : Prop where
  parts : held.Perm (expired ++ left)
  lapsed : ∀ d ∈ expired, ttl ≤ now - d.2
  /-- What fits is not looked at. -/
  unpruned : held.length < capacity → expired = []
  pruned : capacity ≤ held.length → ∀ d ∈ left, now - d.2 < ttl

/-- Of the deletions that are left some are evicted to make room for one more, and the
others are kept. -/
structure Eviction (capacity : Nat) (left evicted kept : List Deletion) : Prop where
  parts : left.Perm (evicted ++ kept)
  roomy : left.length < capacity → evicted = []
  reckoned : capacity ≤ left.length →
    evicted.length = DeletionMemory.excess left.length capacity
  earliest : ∀ d ∈ evicted, ∀ d' ∈ kept, d.2 ≤ d'.2

theorem Expiry.of_room (hroomy : held.length < capacity) :
    Expiry ttl capacity now held [] held where
  parts := .refl _
  lapsed := by simp
  unpruned _ := rfl
  pruned hfull := absurd hroomy (Nat.not_lt_of_le hfull)

theorem Expiry.distinct (h : Expiry ttl capacity now held expired left)
    (hdistinct : (held.map Prod.snd).Nodup) : (left.map Prod.snd).Nodup := by
  rw [(h.parts.map Prod.snd).nodup_iff, List.map_append] at hdistinct
  exact (List.nodup_append.mp hdistinct).2.1

theorem Eviction.of_room (hroomy : left.length < capacity) : Eviction capacity left [] left where
  parts := .refl _
  roomy _ := rfl
  reckoned hfull := absurd hroomy (Nat.not_lt_of_le hfull)
  earliest := by simp

/-- Of different instants those that are evicted are earlier than all others. -/
theorem Eviction.earlier (h : Eviction capacity left evicted kept)
    (hdistinct : (left.map Prod.snd).Nodup) : ∀ d ∈ evicted, ∀ d' ∈ kept, d.2 < d'.2 := by
  rw [(h.parts.map Prod.snd).nodup_iff, List.map_append, List.nodup_append] at hdistinct
  intro d hd d' hd'
  have hne := hdistinct.2.2 d.2 (List.mem_map_of_mem hd) d'.2 (List.mem_map_of_mem hd')
  exact Nat.lt_of_le_of_ne (h.earliest d hd d' hd') hne

end Deletion

namespace DeletionMemory

open Deletion

variable {m : DeletionMemory} {ttl capacity now size : Nat}

/-! ### The reckoning -/

/-- No difference is cut off at zero: integers give the same number. -/
theorem excess_eq_max (hfull : capacity ≤ size) :
    (excess size capacity : Int) = max ((size : Int) + 1 - capacity) (capacity / 10) := by
  unfold excess
  omega

theorem one_le_excess (hfull : capacity ≤ size) : 1 ≤ excess size capacity := by
  unfold excess
  omega

theorem excess_le_size (hroom : 1 ≤ capacity) (hfull : capacity ≤ size) :
    excess size capacity ≤ size := by
  unfold excess
  omega

/-! ### The memory -/

/-- A full memory first drops what has expired, and nothing else. -/
theorem prune_expiry (hfull : capacity ≤ m.size) :
    ∃ expired, Expiry ttl capacity now m.deletions.entries expired
      (m.prune ttl now).deletions.entries := by
  refine ⟨m.deletions.entries.filter fun d => !decide (now - d.2 < ttl), ?_, ?_, ?_, ?_⟩
  · exact ((List.filter_append_perm (fun d => decide (now - d.2 < ttl)) _).symm).trans
      List.perm_append_comm
  · intro d hd
    simpa using (List.mem_filter.mp hd).2
  · exact fun hroomy => absurd hroomy (Nat.not_lt_of_le hfull)
  · intro _ d hd
    exact of_decide_eq_true (List.mem_filter.mp hd).2

/-- Forgetting drops the earliest deletions and keeps the rest, parted by age. -/
theorem forget_eviction (hroom : 1 ≤ capacity) (hfull : capacity ≤ m.size) :
    Eviction capacity m.deletions.entries (m.byAge.take (excess m.size capacity))
      (m.byAge.drop (excess m.size capacity)) where
  parts := by
    rw [List.take_append_drop]
    exact m.byAge_perm.symm
  roomy hroomy := absurd hroomy (Nat.not_lt_of_le hfull)
  reckoned _ := by
    rw [List.length_take, m.byAge_perm.length_eq]
    exact Nat.min_eq_left (excess_le_size hroom hfull)
  earliest := by
    have hascending := m.byAge_ascending
    rw [← List.take_append_drop (excess m.size capacity) m.byAge] at hascending
    exact (List.pairwise_append.mp hascending).2.2

/-- What goes and what stays when room is made. The number that is answered is that of
the deletions that are evicted. -/
theorem makeRoom_parts (m : DeletionMemory) (ttl now : Nat) (hroom : 1 ≤ capacity) :
    ∃ expired left evicted kept, Expiry ttl capacity now m.deletions.entries expired left ∧
      Eviction capacity left evicted kept ∧
      (m.makeRoom ttl capacity now).1 = evicted.length ∧
      (m.makeRoom ttl capacity now).2.deletions.entries.Perm kept := by
  obtain ⟨expired, hexpiry⟩ : ∃ expired, Expiry ttl capacity now m.deletions.entries expired
      (if capacity ≤ m.size then m.prune ttl now else m).deletions.entries := by
    split
    next hfull => exact prune_expiry hfull
    next hroomy => exact ⟨[], .of_room (Nat.lt_of_not_le hroomy)⟩
  unfold makeRoom
  dsimp only
  generalize (if capacity ≤ m.size then m.prune ttl now else m) = pruned at hexpiry ⊢
  split
  next hfull =>
    have hevicts := forget_eviction hroom hfull
    refine ⟨expired, _, _, _, hexpiry, hevicts, (hevicts.reckoned hfull).symm, ?_⟩
    exact pruned.forget_oldest_perm _
  next hroomy =>
    exact ⟨expired, _, [], _, hexpiry, .of_room (Nat.lt_of_not_le hroomy), rfl, .refl _⟩

end DeletionMemory

/-! ### What is counted -/

namespace Host

variable {w : Host} {c : Nat}

/-- Evictions are counted with the number that the memory reckoned. -/
theorem rememberDeletion_evictions {x : Cache} (hx : w.caches.get? c = some x) (l : LedgerId) :
    (w.rememberDeletion c l).metrics.count .evictions =
      w.metrics.count .evictions + (x.remember w.now l).1 := by
  unfold rememberDeletion
  rw [cacheAt_of_get? hx]
  dsimp only
  split
  next hnone =>
    rw [hnone]
    rfl
  next => exact (Metrics.count_add _ _ _ _).trans (by simp)

/-- A cache that remembers a deletion drops what has expired only if its memory has
reached the capacity, and if it is still full after that it evicts exactly as many
deletions as it reckons and counts, the earliest. The new deletion is in memory afterwards,
and the memory is within the capacity, however large it was. -/
theorem evictions_are_exact {x : Cache} (hx : w.caches.get? c = some x)
    (hroom : 1 ≤ x.config.capacity)
    (hdistinct : (x.memory.deletions.entries.map Prod.snd).Nodup) (l : LedgerId) :
    ∃ x' expired left evicted kept,
      (w.rememberDeletion c l).caches.get? c = some x' ∧
      Deletion.Expiry x.ttl x.config.capacity w.now x.memory.deletions.entries expired left ∧
      Deletion.Eviction x.config.capacity left evicted kept ∧
      (x.config.capacity ≤ left.length →
        (DeletionMemory.excess left.length x.config.capacity : Int) =
            max ((left.length : Int) + 1 - x.config.capacity) (x.config.capacity / 10) ∧
          1 ≤ DeletionMemory.excess left.length x.config.capacity ∧
          DeletionMemory.excess left.length x.config.capacity ≤ left.length) ∧
      (∀ d ∈ evicted, ∀ d' ∈ kept, d.2 < d'.2) ∧
      x'.memory.deletions.entries.Perm (Deletion.renew kept (l, w.now)) ∧
      x'.memory.deletions.get? l = some w.now ∧
      x'.memory.size ≤ x.config.capacity ∧
      (w.rememberDeletion c l).metrics.count .evictions =
        w.metrics.count .evictions + evicted.length := by
  obtain ⟨expired, left, evicted, kept, hexpiry, heviction, hcounted, hkept⟩ :=
    x.memory.makeRoom_parts x.ttl w.now hroom
  refine ⟨(x.remember w.now l).2, expired, left, evicted, kept, rememberDeletion_get? hx l,
    hexpiry, heviction, fun hfull => ?_, heviction.earlier (hexpiry.distinct hdistinct),
    ?_, Table.get?_insert_self _ _ _, x.memory.size_remember_le _ _ hroom l, ?_⟩
  · exact ⟨DeletionMemory.excess_eq_max hfull, DeletionMemory.one_le_excess hfull,
      DeletionMemory.excess_le_size hroom hfull⟩
  · exact (x.memory.remember_renews _ _ _ l).trans ((hkept.filter _).cons _)
  · rw [rememberDeletion_evictions hx, ← hcounted]
    rfl

/-- A host whose cache has room for two deletions and holds five, one of which has
expired. -/
def overcrowded : Host :=
  let deletions : Table LedgerId Nat :=
    ⟨[(⟨1⟩, 0), (⟨2⟩, 2000000000), (⟨3⟩, 2000000003), (⟨4⟩, 2000000001), (⟨5⟩, 2000000002)],
      by decide⟩
  let cache : Cache := { Cache.create ⟨Config.leastTtl, 2, false⟩ with memory := ⟨deletions⟩ }
  { start none with caches := Arena.empty.add cache, now := 2000000004 }

/-- One of the five is deleted again. One has expired, three are evicted and counted, and one
is kept. -/
theorem overcrowded_evicts_three :
    ∃ x expired left evicted kept,
      (overcrowded.rememberDeletion 0 ⟨2⟩).caches.get? 0 = some x ∧
      Deletion.Expiry 1000000000 2 2000000004
        (overcrowded.cacheAt 0).memory.deletions.entries expired left ∧
      Deletion.Eviction 2 left evicted kept ∧
      expired.length = 1 ∧ evicted.length = 3 ∧ kept.length = 1 ∧
      x.memory.deletions.get? ⟨2⟩ = some 2000000004 ∧
      (overcrowded.rememberDeletion 0 ⟨2⟩).metrics.count .evictions = 3 := by
  have hcount : (overcrowded.rememberDeletion 0 ⟨2⟩).metrics.count .evictions = 3 := by
    decide +kernel
  obtain ⟨x, expired, left, evicted, kept, hx, hexpiry, heviction, -, -, -, hget, -, hgrown⟩ :=
    evictions_are_exact (w := overcrowded) (c := 0) rfl (by decide) (by decide) ⟨2⟩
  have hevicted : evicted.length = 3 := by
    rw [hcount] at hgrown
    exact (Nat.zero_add _).symm.trans hgrown.symm
  have hleft : left.length = evicted.length + kept.length :=
    heviction.parts.length_eq.trans List.length_append
  have hheld : 5 = expired.length + left.length :=
    hexpiry.parts.length_eq.trans List.length_append
  have hreckoned : evicted.length = DeletionMemory.excess left.length 2 :=
    heviction.reckoned (by change 2 ≤ left.length; omega)
  unfold DeletionMemory.excess at hreckoned
  exact ⟨x, expired, left, evicted, kept, hx, hexpiry, heviction, by omega, hevicted, by omega,
    hget, hcount⟩

end Host

end FencedLedger
