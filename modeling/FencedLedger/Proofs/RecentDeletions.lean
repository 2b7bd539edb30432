import FencedLedger.DeletionMemory
import Mathlib.Data.List.Dedup
import Mathlib.Data.List.Induction

/-!
# The window of recent deletions

While nothing that it holds expires, a memory of deletions is a window of the
ledgers in the order of their latest deletion: some of the latest, without a gap.
The window narrows when the memory is full and gives up a tenth at once, and a
ledger that is deleted again may be among those given up, so its width is only
known within bounds. With a time to live of nothing there is no window: all is
forgotten at once.
-/

namespace FencedLedger

/-- A ledger and the instant of its deletion. -/
abbrev Deletion := LedgerId × Nat

namespace Deletion

variable {capacity : Nat} {history recent longer : List Deletion} {d : Deletion}

/-- Put a deletion in front of others, in place of an earlier one of its ledger. -/
def renew (recent : List Deletion) (d : Deletion) : List Deletion :=
  d :: recent.filter (·.1 ≠ d.1)

/-- The ledgers of a history, which is told oldest first, each with its latest
deletion. The one deleted last is in front. -/
def latestFirst (history : List Deletion) : List Deletion := history.foldl renew []

theorem renew_mono (h : recent <+: longer) (d : Deletion) : renew recent d <+: renew longer d :=
  List.prefix_cons_inj d |>.mpr (h.filter _)

/-- Only one deletion is replaced, as each ledger is there once. -/
theorem length_le_length_renew (h : (recent.map Prod.fst).Nodup) :
    recent.length ≤ (renew recent d).length := by
  have hcount : (recent.map Prod.fst).count d.1 ≤ 1 := List.nodup_iff_count_le_one.mp h d.1
  rw [List.count, List.countP_map] at hcount
  have hsplit := List.length_eq_countP_add_countP (fun x : Deletion => decide (x.1 ≠ d.1))
    (l := recent)
  rw [renew, List.length_cons, ← List.countP_eq_length_filter]
  have hsame : recent.countP (fun x => decide ¬decide (x.1 ≠ d.1) = true) =
      recent.countP ((· == d.1) ∘ Prod.fst) := by
    congr 1
    funext x
    simp [beq_eq_decide]
  omega

theorem length_renew_le (recent : List Deletion) (d : Deletion) :
    (renew recent d).length ≤ recent.length + 1 :=
  Nat.succ_le_succ (List.length_filter_le _ _)

theorem latestFirst_concat (history : List Deletion) (d : Deletion) :
    latestFirst (history ++ [d]) = renew (latestFirst history) d := by
  simp [latestFirst]

/-- What is among the latest did happen. -/
theorem mem_of_mem_latestFirst (h : d ∈ latestFirst history) : d ∈ history := by
  induction history using List.reverseRecOn with
  | nil => cases h
  | append_singleton history d' ih =>
      rw [latestFirst_concat, renew, List.mem_cons, List.mem_filter] at h
      rcases h with rfl | ⟨hmem, -⟩
      · simp
      · exact List.mem_append_left _ (ih hmem)

/-- The ledgers of a history, the one whose latest deletion was last in front. -/
def latestLedgers (history : List Deletion) : List LedgerId :=
  (history.map Prod.fst).dedup.reverse

/-- Each ledger stands where it occurs last. -/
theorem dedup_concat (ledgers : List LedgerId) (l : LedgerId) :
    (ledgers ++ [l]).dedup = ledgers.dedup.filter (· ≠ l) ++ [l] := by
  induction ledgers with
  | nil => simp
  | cons l' ledgers ih =>
      rw [List.cons_append]
      by_cases hlater : l' ∈ ledgers
      · rw [List.dedup_cons_of_mem (List.mem_append_left _ hlater),
          List.dedup_cons_of_mem hlater, ih]
      · rw [List.dedup_cons_of_notMem hlater]
        by_cases hsame : l' = l
        · rw [List.dedup_cons_of_mem (by simp [hsame]), ih,
            List.filter_cons_of_neg (by simpa using hsame)]
        · rw [List.dedup_cons_of_notMem (by simp [hlater, hsame]), ih,
            List.filter_cons_of_pos (by simpa using hsame), List.cons_append]

theorem map_latestFirst (history : List Deletion) :
    (latestFirst history).map Prod.fst = latestLedgers history := by
  induction history using List.reverseRecOn with
  | nil => rfl
  | append_singleton history d ih =>
      rw [latestLedgers, List.map_append, List.map_singleton, dedup_concat, List.reverse_append,
        ← List.filter_reverse, ← latestLedgers, ← ih, List.filter_map, latestFirst_concat]
      rfl

theorem nodup_latestFirst (history : List Deletion) :
    ((latestFirst history).map Prod.fst).Nodup := by
  rw [map_latestFirst]
  exact List.nodup_reverse.mpr (List.nodup_dedup _)

theorem length_latestFirst (history : List Deletion) :
    (latestFirst history).length = (latestLedgers history).length := by
  rw [← map_latestFirst, List.length_map]

/-- The instants descend when those of the history ascend. -/
theorem latestFirst_descending (h : history.Pairwise (·.2 < ·.2)) :
    (latestFirst history).Pairwise (·.2 > ·.2) := by
  induction history using List.reverseRecOn with
  | nil => exact .nil
  | append_singleton history d ih =>
      rw [List.pairwise_append] at h
      obtain ⟨hbefore, -, hlast⟩ := h
      rw [latestFirst_concat, renew, List.pairwise_cons]
      constructor
      · intro d' hd'
        exact hlast d' (mem_of_mem_latestFirst (List.mem_of_mem_filter hd')) d (by simp)
      · exact (ih hbefore).sublist List.filter_sublist

/-! ### The window -/

/-- How many ledgers a full memory gives up. -/
def surrender (capacity : Nat) : Nat := max 1 (capacity / 10)

/-- What stays in the window when one more deletion has to find room in it. -/
def spared (capacity : Nat) (recent : List Deletion) : List Deletion :=
  if capacity ≤ recent.length then recent.take (capacity - surrender capacity) else recent

/-- The window after a history. -/
def window (capacity : Nat) (history : List Deletion) : List Deletion :=
  history.foldl (fun recent d => renew (spared capacity recent) d) []

theorem window_concat (capacity : Nat) (history : List Deletion) (d : Deletion) :
    window capacity (history ++ [d]) = renew (spared capacity (window capacity history)) d := by
  simp [window]

theorem spared_initial (capacity : Nat) (recent : List Deletion) :
    spared capacity recent <+: recent := by
  unfold spared
  split
  next => exact List.take_prefix _ _
  next => exact List.prefix_refl _

/-- The window is a beginning of the list, so nothing is left out in it. -/
theorem window_initial (capacity : Nat) (history : List Deletion) :
    window capacity history <+: latestFirst history := by
  induction history using List.reverseRecOn with
  | nil => exact List.prefix_refl _
  | append_singleton history d ih =>
      rw [window_concat, latestFirst_concat]
      exact renew_mono ((spared_initial _ _).trans ih) d

theorem nodup_window (capacity : Nat) (history : List Deletion) :
    ((window capacity history).map Prod.fst).Nodup :=
  (nodup_latestFirst history).sublist ((window_initial capacity history).sublist.map _)

theorem window_eq_take (capacity : Nat) (history : List Deletion) :
    window capacity history = (latestFirst history).take (window capacity history).length :=
  List.prefix_iff_eq_take.mp (window_initial capacity history)

theorem mem_of_mem_window (h : d ∈ window capacity history) : d ∈ history :=
  mem_of_mem_latestFirst ((window_initial capacity history).subset h)

/-- A full memory gives up one deletion at least. -/
theorem length_spared_lt (hroom : 1 ≤ capacity) (recent : List Deletion) :
    (spared capacity recent).length < capacity := by
  unfold spared surrender
  split
  next =>
    rw [List.length_take]
    omega
  next => omega

/-- A memory of at least one ledger never holds more than its capacity. -/
theorem length_window_le (hroom : 1 ≤ capacity) (history : List Deletion) :
    (window capacity history).length ≤ capacity := by
  induction history using List.reverseRecOn with
  | nil => exact Nat.zero_le _
  | append_singleton history d ih =>
      rw [window_concat]
      exact Nat.le_trans (length_renew_le _ _) (length_spared_lt hroom _)

/-- As long as there is room the window has all ledgers, and after that it has
at least what a full memory does not give up. -/
theorem le_length_window (capacity : Nat) (history : List Deletion) :
    min (latestFirst history).length (max 1 (capacity - surrender capacity)) ≤
      (window capacity history).length := by
  induction history using List.reverseRecOn with
  | nil => exact Nat.zero_le _
  | append_singleton history d ih =>
      have hnodup := nodup_window capacity history
      have hspared := length_le_length_renew (d := d)
        (hnodup.sublist ((spared_initial capacity _).sublist.map _))
      have hnonempty : 1 ≤ (renew (spared capacity (window capacity history)) d).length :=
        Nat.le_add_left _ _
      rw [window_concat]
      by_cases hfull : capacity ≤ (window capacity history).length
      · have hlength : (spared capacity (window capacity history)).length =
            capacity - surrender capacity := by
          rw [spared, if_pos hfull, List.length_take]
          omega
        omega
      · rw [spared, if_neg hfull] at hspared hnonempty ⊢
        by_cases hall : window capacity history = latestFirst history
        · rw [hall, latestFirst_concat]
          exact Nat.min_le_left _ _
        · -- otherwise the window is narrower than the history, and so it is wide enough
          have hnarrow : (window capacity history).length < (latestFirst history).length := by
            refine Nat.lt_of_le_of_ne (window_initial capacity history).length_le fun heq => hall ?_
            exact (window_initial capacity history).eq_of_length heq
          omega

/-- Among those that pass, the first ones come no later than before. -/
theorem mem_take_filter {n : Nat} {p : Deletion → Bool} (h : d ∈ recent.take n)
    (hp : p d = true) : d ∈ (recent.filter p).take n := by
  have hinitial : (recent.take n).filter p <+: recent.filter p :=
    (List.take_prefix n recent).filter p
  have hlength : ((recent.take n).filter p).length ≤ n :=
    Nat.le_trans (List.length_filter_le _ _) (List.length_take_le _ _)
  rw [List.prefix_iff_eq_take] at hinitial
  have hmem : d ∈ (recent.take n).filter p := List.mem_filter.mpr ⟨h, hp⟩
  rw [hinitial] at hmem
  exact (List.take_prefix_take_left hlength).subset hmem

/-- A ledger is not given up before as many others were remembered as a full
memory keeps. It is behind these at most. -/
theorem mem_window_of_recent (earlier later : List Deletion) (d : Deletion)
    (hlater : later.length ≤ capacity - surrender capacity) :
    d.1 ∈ ((window capacity (earlier ++ d :: later)).take (later.length + 1)).map Prod.fst := by
  induction later using List.reverseRecOn with
  | nil =>
      rw [window_concat, renew]
      simp
  | append_singleton later d' ih =>
      rw [List.length_append, List.length_singleton] at hlater ⊢
      obtain ⟨x, hx, hxd⟩ := List.mem_map.mp (ih (by omega))
      rw [← List.cons_append, ← List.append_assoc, window_concat, renew, List.take_succ_cons,
        List.map_cons, List.mem_cons]
      by_cases hsame : d.1 = d'.1
      · exact Or.inl hsame
      · refine Or.inr (List.mem_map.mpr ⟨x, mem_take_filter ?_ (by simpa [hxd] using hsame), hxd⟩)
        unfold spared
        split
        next => rwa [List.take_take, Nat.min_eq_left hlater]
        next => exact hx

end Deletion

/-! ### The memory -/

namespace DeletionMemory

open Deletion

variable {m : DeletionMemory} {ttl capacity now : Nat} {recent : List Deletion} {l : LedgerId}

/-- The deletions in memory, oldest first. -/
def byAge (m : DeletionMemory) : List Deletion :=
  m.deletions.entries.mergeSort fun a b => a.2 ≤ b.2

theorem byAge_perm (m : DeletionMemory) : m.byAge.Perm m.deletions.entries :=
  List.mergeSort_perm _ _

theorem byAge_ascending (m : DeletionMemory) : m.byAge.Pairwise (·.2 ≤ ·.2) := by
  have hsorted : m.byAge.Pairwise fun a b => decide (a.2 ≤ b.2) = true :=
    List.pairwise_mergeSort (fun a b c => by simpa using Nat.le_trans)
      (fun a b => by simpa using Nat.le_total _ _) m.deletions.entries
  exact hsorted.imp of_decide_eq_true

/-- Different instants leave one order only. -/
theorem byAge_eq_reverse (hperm : m.deletions.entries.Perm recent)
    (hdescending : recent.Pairwise (·.2 > ·.2)) : m.byAge = recent.reverse := by
  have hreverse : recent.reverse.Pairwise (·.2 < ·.2) := List.pairwise_reverse.mpr hdescending
  have hdifferent : (recent.reverse.map Prod.snd).Nodup :=
    List.pairwise_map.mpr (hreverse.imp Nat.ne_of_lt)
  have hsame : m.byAge.Perm recent.reverse :=
    m.byAge_perm.trans (hperm.trans recent.reverse_perm.symm)
  refine hsame.eq_of_pairwise ?_ m.byAge_ascending (hreverse.imp Nat.le_of_lt)
  intro a b ha hb hab hba
  exact List.inj_on_of_nodup_map hdifferent (hsame.mem_iff.mp ha) hb (Nat.le_antisymm hab hba)

/-- Of a list without repetitions, those that are not among the first ones are the last
ones. -/
theorem filter_not_take {xs : List Deletion} (h : (xs.map Prod.fst).Nodup) (n : Nat) :
    xs.filter (fun d => !((xs.map Prod.fst).take n).contains d.1) = xs.drop n := by
  induction xs generalizing n with
  | nil => simp
  | cons x xs ih =>
      rw [List.map_cons, List.nodup_cons] at h
      cases n with
      | zero => simp
      | succ n =>
          rw [List.drop_succ_cons, ← ih h.2 n, List.map_cons, List.take_succ_cons]
          rw [List.filter_cons_of_neg (by simp)]
          refine List.filter_congr fun d hd => ?_
          have hne : d.1 ≠ x.1 := fun heq => h.1 (heq ▸ List.mem_map_of_mem hd)
          simp [hne]

/-- Forgetting the oldest leaves the deletions that come after them by age. -/
theorem forget_oldest_perm (m : DeletionMemory) (n : Nat) :
    (m.forget (m.oldestFirst.take n)).deletions.entries.Perm (m.byAge.drop n) := by
  have hnodup : (m.byAge.map Prod.fst).Nodup :=
    (m.byAge_perm.map Prod.fst).nodup_iff.mpr m.deletions.distinct
  rw [← filter_not_take hnodup n]
  exact m.byAge_perm.symm.filter _

theorem prune_of_live (hlive : ∀ d ∈ m.deletions.entries, now - d.2 < ttl) :
    m.prune ttl now = m := by
  unfold prune
  congr 1
  refine Table.ext (List.filter_eq_self.mpr fun d hd => ?_)
  exact decide_eq_true (hlive d hd)

/-- Binding a key leaves one binding of it. -/
theorem assign_perm {bs : List Deletion} (h : (bs.map Prod.fst).Nodup) (l : LedgerId) (t : Nat) :
    (Table.assign l t bs).Perm (renew bs (l, t)) := by
  unfold renew
  induction bs with
  | nil => exact .refl _
  | cons b bs ih =>
      rw [List.map_cons, List.nodup_cons] at h
      unfold Table.assign
      split
      next heq =>
        subst heq
        have hothers : bs.filter (·.1 ≠ b.1) = bs := by
          refine List.filter_eq_self.mpr fun d hd => decide_eq_true fun heq => ?_
          exact h.1 (heq ▸ List.mem_map_of_mem hd)
        rw [List.filter_cons_of_neg (by simp), hothers]
      next hne =>
        rw [List.filter_cons_of_pos (by simpa using hne)]
        exact ((ih h.2).cons b).trans (.swap _ _ _)

/-- While nothing expires, making room drops the oldest deletions of a full memory. -/
theorem makeRoom_perm (hperm : m.deletions.entries.Perm recent)
    (hdescending : recent.Pairwise (·.2 > ·.2)) (hlive : ∀ d ∈ recent, now - d.2 < ttl)
    (hsize : recent.length ≤ capacity) :
    (m.makeRoom ttl capacity now).2.deletions.entries.Perm (spared capacity recent) := by
  have hlength : m.size = recent.length := hperm.length_eq
  have hpruned : m.prune ttl now = m := prune_of_live fun d hd => hlive d (hperm.mem_iff.mp hd)
  unfold makeRoom spared
  rw [hpruned, ite_self]
  dsimp only
  rw [hlength]
  split
  next hfull =>
    obtain rfl : recent.length = capacity := Nat.le_antisymm hsize hfull
    have hexcess : excess recent.length recent.length = surrender recent.length := by
      unfold excess surrender
      omega
    have hforgot := m.forget_oldest_perm (surrender recent.length)
    rw [byAge_eq_reverse hperm hdescending, List.drop_reverse] at hforgot
    rw [hexcess]
    exact hforgot.trans (List.reverse_perm _)
  next => exact hperm

/-- Once there is room, the new deletion takes the place of an earlier one of its ledger. -/
theorem remember_renews (m : DeletionMemory) (ttl capacity now : Nat) (l : LedgerId) :
    (m.remember ttl capacity now l).2.deletions.entries.Perm
      (renew (m.makeRoom ttl capacity now).2.deletions.entries (l, now)) :=
  assign_perm (m.makeRoom ttl capacity now).2.deletions.distinct l now

/-- While nothing expires, remembering moves the window on. -/
theorem remember_perm (hperm : m.deletions.entries.Perm recent)
    (hdescending : recent.Pairwise (·.2 > ·.2)) (hlive : ∀ d ∈ recent, now - d.2 < ttl)
    (hsize : recent.length ≤ capacity) (l : LedgerId) :
    (m.remember ttl capacity now l).2.deletions.entries.Perm
      (renew (spared capacity recent) (l, now)) := by
  have hroom := makeRoom_perm hperm hdescending hlive hsize
  exact (m.remember_renews ttl capacity now l).trans ((hroom.filter _).cons _)

/-- A memory that made room has room. -/
theorem size_makeRoom_lt (m : DeletionMemory) (ttl now : Nat) (hroom : 1 ≤ capacity) :
    (m.makeRoom ttl capacity now).2.size < capacity := by
  unfold makeRoom
  dsimp only
  generalize (if capacity ≤ m.size then m.prune ttl now else m) = pruned
  split
  next hfull =>
    have hlength := (pruned.forget_oldest_perm (excess pruned.size capacity)).length_eq
    rw [List.length_drop, pruned.byAge_perm.length_eq] at hlength
    change (pruned.forget _).size = _ at hlength
    dsimp only
    rw [hlength]
    unfold excess
    unfold size Table.size at hfull ⊢
    omega
  next hroomy => exact Nat.lt_of_not_le hroomy

/-- Whatever expires, a memory of at least one ledger stays within its capacity. -/
theorem size_remember_le (m : DeletionMemory) (ttl now : Nat) (hroom : 1 ≤ capacity)
    (l : LedgerId) : (m.remember ttl capacity now l).2.size ≤ capacity := by
  have hlt := m.size_makeRoom_lt ttl now hroom
  have hle := length_renew_le (m.makeRoom ttl capacity now).2.deletions.entries (l, now)
  rw [← (m.remember_renews ttl capacity now l).length_eq] at hle
  exact Nat.le_trans hle hlt

/-- A memory whose deletions are live recalls them all. -/
theorem recalls_iff_of_live (hlive : ∀ d ∈ m.deletions.entries, now - d.2 < ttl) :
    m.recalls ttl now l = true ↔ l ∈ m.deletions.entries.map Prod.fst := by
  unfold recalls
  split
  next hnone =>
    have habsent := Table.get?_eq_none_iff.mp hnone
    exact ⟨fun hfalse => Bool.noConfusion hfalse, fun hmem => (habsent hmem).elim⟩
  next t hsome =>
    have hmem := Table.mem_of_lookup hsome
    simp only [hlive _ hmem, decide_true, true_iff]
    exact List.mem_map_of_mem hmem

/-- Without a time to live nothing is recalled. -/
theorem recalls_zero (m : DeletionMemory) (now : Nat) (l : LedgerId) :
    m.recalls 0 now l = false := by
  unfold recalls
  split <;> simp

end DeletionMemory

end FencedLedger
