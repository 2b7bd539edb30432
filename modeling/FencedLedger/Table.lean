/-!
# Tables

A table is a finite map that lists its keys in the order in which they were
first bound. Binding a key again replaces its value and keeps its place; erasing
a key and binding it again moves it to the end. That keys are pairwise distinct
is part of the type, so the number of bindings is the number of keys.
-/

namespace FencedLedger

/-- A finite map whose keys are listed in the order of their first binding. -/
structure Table (κ α : Type) where
  /-- The bindings, oldest key first. -/
  entries : List (κ × α)
  /-- No key is bound twice. -/
  distinct : (entries.map Prod.fst).Nodup

namespace Table

variable {κ α β : Type}

@[ext] theorem ext {t u : Table κ α} (h : t.entries = u.entries) : t = u := by
  obtain ⟨bs, hb⟩ := t
  obtain ⟨cs, hc⟩ := u
  dsimp only at h
  subst h
  rfl

/-- The table with no binding. -/
def empty : Table κ α := ⟨[], List.nodup_nil⟩

instance : Inhabited (Table κ α) := ⟨empty⟩

/-- The bound keys, in order of first binding. -/
def keys (t : Table κ α) : List κ := t.entries.map Prod.fst

/-- The number of bindings. -/
def size (t : Table κ α) : Nat := t.entries.length

theorem nodup_filter {p : κ × α → Bool} {bs : List (κ × α)}
    (h : (bs.map Prod.fst).Nodup) : ((bs.filter p).map Prod.fst).Nodup :=
  h.sublist ((List.filter_sublist).map Prod.fst)

/-- Keep the bindings that `p` accepts. -/
def filter (t : Table κ α) (p : κ → α → Bool) : Table κ α :=
  ⟨t.entries.filter fun b => p b.1 b.2, nodup_filter t.distinct⟩

@[simp] theorem length_keys (t : Table κ α) : t.keys.length = t.size := by
  simp [keys, size]

theorem nodup_keys (t : Table κ α) : t.keys.Nodup := t.distinct

variable [DecidableEq κ]

/-! ### Lists of bindings -/

/-- The first value bound to `k`. -/
def lookup (k : κ) : List (κ × α) → Option α
  | [] => none
  | (k', v) :: rest => if k' = k then some v else lookup k rest

/-- Bind `k` to `v`, in place when `k` is bound already and at the end when not. -/
def assign (k : κ) (v : α) : List (κ × α) → List (κ × α)
  | [] => [(k, v)]
  | (k', v') :: rest =>
      if k' = k then (k, v) :: rest else (k', v') :: assign k v rest

/-- A key keeps its place, and a new one comes last. -/
theorem map_fst_assign (k : κ) (v : α) (bs : List (κ × α)) :
    (assign k v bs).map Prod.fst =
      if k ∈ bs.map Prod.fst then bs.map Prod.fst else bs.map Prod.fst ++ [k] := by
  induction bs with
  | nil => simp [assign]
  | cons b rest ih =>
      obtain ⟨k', v'⟩ := b
      by_cases h : k' = k
      · simp [assign, h]
      · have h' : ¬ k = k' := fun e => h e.symm
        simp only [assign, h, if_false, List.map_cons, ih, List.mem_cons, h', false_or]
        split <;> simp

/-- No key is there twice. -/
theorem nodup_assign {k : κ} {v : α} {bs : List (κ × α)}
    (h : (bs.map Prod.fst).Nodup) : ((assign k v bs).map Prod.fst).Nodup := by
  rw [map_fst_assign]
  split
  next => exact h
  next hk =>
    rw [List.nodup_append]
    refine ⟨h, by simp, ?_⟩
    intro a ha b hb
    rw [List.mem_singleton] at hb
    subst hb
    exact fun e => hk (e ▸ ha)

/-- What was assigned last is found. -/
theorem lookup_assign (k k' : κ) (v : α) (bs : List (κ × α)) :
    lookup k' (assign k v bs) = if k = k' then some v else lookup k' bs := by
  induction bs with
  | nil => simp [assign, lookup]
  | cons b rest ih =>
      obtain ⟨k₀, v₀⟩ := b
      by_cases h : k₀ = k
      · subst h
        by_cases h' : k₀ = k' <;> simp [assign, lookup, h']
      · by_cases h' : k₀ = k'
        · subst h'
          have hne : ¬ k = k₀ := fun e => h e.symm
          simp [assign, lookup, h, hne]
        · simp [assign, lookup, h, h', ih]

/-- A key is not found just if it is not there. -/
theorem lookup_eq_none_iff {k : κ} {bs : List (κ × α)} :
    lookup k bs = none ↔ k ∉ bs.map Prod.fst := by
  induction bs with
  | nil => simp [lookup]
  | cons b rest ih =>
      obtain ⟨k', v⟩ := b
      by_cases h : k' = k
      · simp [lookup, h]
      · have h' : ¬ k = k' := fun e => h e.symm
        simp only [lookup, h, if_false, ih, List.map_cons, List.mem_cons, h', false_or]

/-- What is found is there. -/
theorem mem_of_lookup {k : κ} {v : α} {bs : List (κ × α)} (h : lookup k bs = some v) :
    (k, v) ∈ bs := by
  induction bs with
  | nil => cases h
  | cons b rest ih =>
      unfold lookup at h
      split at h
      next heq =>
        cases h
        subst heq
        exact List.mem_cons_self
      next => exact List.mem_cons_of_mem _ (ih h)

/-- What is there is found, if no key is there twice. -/
theorem lookup_of_mem {k : κ} {v : α} {bs : List (κ × α)} (hdistinct : (bs.map Prod.fst).Nodup)
    (h : (k, v) ∈ bs) : lookup k bs = some v := by
  induction bs with
  | nil => cases h
  | cons b rest ih =>
      rw [List.map_cons, List.nodup_cons] at hdistinct
      unfold lookup
      rcases List.mem_cons.mp h with rfl | hrest
      · rw [if_pos rfl]
      · have hne : b.1 ≠ k := fun heq => hdistinct.1 (heq ▸ List.mem_map_of_mem hrest)
        rw [if_neg hne]
        exact ih hdistinct.2 hrest

/-- Assigning what is there already changes nothing. -/
theorem assign_of_lookup {k : κ} {v : α} {bs : List (κ × α)} (h : lookup k bs = some v) :
    assign k v bs = bs := by
  induction bs with
  | nil => cases h
  | cons b rest ih =>
      unfold lookup at h
      unfold assign
      split at h
      next heq =>
        cases h
        subst heq
        rw [if_pos rfl]
      next hne => rw [if_neg hne, ih h]

/-- Of two assignments, the later one counts. -/
theorem assign_assign (k : κ) (v v' : α) (bs : List (κ × α)) :
    assign k v (assign k v' bs) = assign k v bs := by
  induction bs with
  | nil => simp [assign]
  | cons b rest ih =>
      obtain ⟨k', v₀⟩ := b
      by_cases h : k' = k <;> simp [assign, h, ih]

/-- A new key comes last. -/
theorem assign_of_lookup_eq_none {k : κ} {bs : List (κ × α)} (h : lookup k bs = none) (v : α) :
    assign k v bs = bs ++ [(k, v)] := by
  induction bs with
  | nil => rfl
  | cons b rest ih =>
      unfold lookup at h
      split at h
      next => cases h
      next hne =>
        unfold assign
        rw [if_neg hne, ih h, List.cons_append]

/-- Filtering by key finds the keys that pass. -/
theorem lookup_filter_key (p : κ → Bool) (k : κ) (bs : List (κ × α)) :
    lookup k (bs.filter fun b => p b.1) = if p k then lookup k bs else none := by
  induction bs with
  | nil => simp [lookup]
  | cons b rest ih =>
      obtain ⟨k', v⟩ := b
      by_cases hp : p k'
      · by_cases h : k' = k
        · subst h; simp [lookup, hp]
        · simp [lookup, hp, h, ih]
      · by_cases h : k' = k
        · subst h; simp [hp, ih]
        · simp [lookup, hp, h, ih]

/-! ### Look-up and binding -/

/-- The value bound to `k`. -/
def get? (t : Table κ α) (k : κ) : Option α := lookup k t.entries

/-- Whether `k` is bound. -/
def contains (t : Table κ α) (k : κ) : Bool := (t.get? k).isSome

/-- Bind `k` to `v`. A key that was bound keeps its place. -/
def insert (t : Table κ α) (k : κ) (v : α) : Table κ α :=
  ⟨assign k v t.entries, nodup_assign t.distinct⟩

/-- Remove the binding of `k`. -/
def erase (t : Table κ α) (k : κ) : Table κ α :=
  t.filter fun k' _ => k' ≠ k

/-- Replace the value bound to `k`, if there is one, by its image under `f`. -/
def modify (t : Table κ α) (k : κ) (f : α → α) : Table κ α :=
  match t.get? k with
  | none => t
  | some v => t.insert k (f v)

@[simp] theorem get?_empty (k : κ) : (empty : Table κ α).get? k = none := rfl

theorem get?_insert (t : Table κ α) (k k' : κ) (v : α) :
    (t.insert k v).get? k' = if k = k' then some v else t.get? k' :=
  lookup_assign k k' v t.entries

@[simp] theorem get?_insert_self (t : Table κ α) (k : κ) (v : α) :
    (t.insert k v).get? k = some v := by
  simp [get?_insert]

theorem get?_insert_ne (t : Table κ α) {k k' : κ} (v : α) (h : k ≠ k') :
    (t.insert k v).get? k' = t.get? k' := by
  simp [get?_insert, h]

/-- An erased key is found no more, and the others are. -/
theorem get?_erase (t : Table κ α) (k k' : κ) :
    (t.erase k).get? k' = if k = k' then none else t.get? k' := by
  have h := lookup_filter_key (fun x => decide (x ≠ k)) k' t.entries
  unfold erase filter get?
  rw [h]
  by_cases hk : k = k'
  · subst hk; simp
  · have hk' : ¬ k' = k := fun e => hk e.symm
    simp [hk, hk']

/-- Only the value under the key is modified. -/
theorem get?_modify (t : Table κ α) (k k' : κ) (f : α → α) :
    (t.modify k f).get? k' = if k = k' then (t.get? k').map f else t.get? k' := by
  unfold modify
  split
  next h =>
    by_cases hk : k = k'
    · subst hk; simp [h]
    · simp [hk]
  next v h =>
    rw [get?_insert]
    by_cases hk : k = k'
    · subst hk; simp [h]
    · simp [hk]

theorem get?_eq_none_iff {t : Table κ α} {k : κ} : t.get? k = none ↔ k ∉ t.keys :=
  lookup_eq_none_iff

theorem get?_eq_some_iff {t : Table κ α} {k : κ} {v : α} :
    t.get? k = some v ↔ (k, v) ∈ t.entries :=
  ⟨mem_of_lookup, lookup_of_mem t.distinct⟩

/-- Binding a key to its value again changes nothing. -/
theorem insert_of_get? {t : Table κ α} {k : κ} {v : α} (h : t.get? k = some v) :
    t.insert k v = t :=
  ext (assign_of_lookup h)

/-- Of two values bound to one key the second stays. -/
theorem insert_insert (t : Table κ α) (k : κ) (v v' : α) :
    (t.insert k v').insert k v = t.insert k v :=
  ext (assign_assign k v v' t.entries)

/-- A key that was not bound is bound last. -/
theorem entries_insert_of_get?_eq_none {t : Table κ α} {k : κ} (h : t.get? k = none) (v : α) :
    (t.insert k v).entries = t.entries ++ [(k, v)] :=
  assign_of_lookup_eq_none h v

theorem get?_filter_value (t : Table κ α) (p : α → Bool) (k : κ) :
    (t.filter fun _ v => p v).get? k = (t.get? k).filter p := by
  apply Option.ext
  intro v
  rw [Option.filter_eq_some_iff, get?_eq_some_iff, get?_eq_some_iff]
  exact List.mem_filter

@[simp] theorem contains_iff {t : Table κ α} {k : κ} : t.contains k = true ↔ k ∈ t.keys := by
  unfold contains
  rw [Option.isSome_iff_ne_none, Ne, get?_eq_none_iff, Classical.not_not]

theorem keys_insert (t : Table κ α) (k : κ) (v : α) :
    (t.insert k v).keys = if k ∈ t.keys then t.keys else t.keys ++ [k] :=
  map_fst_assign k v t.entries

end Table

end FencedLedger
