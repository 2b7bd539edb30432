/-!
# Arenas

An arena holds objects by number. Numbers are handed out in ascending order and
never again, so two objects of one arena are the same object exactly when their
numbers agree, also after one of them is gone.
-/

namespace FencedLedger

/-- Objects by number. -/
structure Arena (α : Type) where
  /-- The object of each number handed out so far, `none` once it is released. -/
  slots : Array (Option α)

namespace Arena

variable {α : Type}

/-- The arena that has handed out no number. -/
def empty : Arena α := ⟨#[]⟩

instance : Inhabited (Arena α) := ⟨empty⟩

/-- The number that the next object gets. -/
def next (a : Arena α) : Nat := a.slots.size

/-- The object with number `i`, unless it was released. -/
def get? (a : Arena α) (i : Nat) : Option α := a.slots[i]?.join

/-- Whether the object with number `i` is still held. -/
def holds (a : Arena α) (i : Nat) : Bool := (a.get? i).isSome

/-- Add an object under the next number. -/
def add (a : Arena α) (x : α) : Arena α := ⟨a.slots.push (some x)⟩

/-- Replace the object with number `i`, if it is held, by its image under `f`. -/
def modify (a : Arena α) (i : Nat) (f : α → α) : Arena α :=
  ⟨a.slots.modify i (Option.map f)⟩

/-- Let go of the object with number `i`. Its number stays used. -/
def release (a : Arena α) (i : Nat) : Arena α := ⟨a.slots.modify i fun _ => none⟩

@[ext] theorem ext {a b : Arena α} (h : a.slots = b.slots) : a = b := by
  obtain ⟨xs⟩ := a
  obtain ⟨ys⟩ := b
  exact congrArg Arena.mk h

@[simp] theorem get?_empty (i : Nat) : (empty : Arena α).get? i = none := rfl

theorem get?_add (a : Arena α) (x : α) (i : Nat) :
    (a.add x).get? i = if i = a.next then some x else a.get? i := by
  unfold get? add next
  rw [Array.getElem?_push]
  split <;> simp

@[simp] theorem get?_add_next (a : Arena α) (x : α) : (a.add x).get? a.next = some x := by
  simp [get?_add]

theorem get?_of_next_le (a : Arena α) {i : Nat} (h : a.next ≤ i) : a.get? i = none := by
  unfold next at h
  simp [get?, Array.getElem?_eq_none h]

/-- Only the object in the slot is modified. -/
theorem get?_modify (a : Arena α) (i j : Nat) (f : α → α) :
    (a.modify i f).get? j = if i = j then (a.get? j).map f else a.get? j := by
  unfold get? modify
  rw [Array.getElem?_modify]
  split
  next => cases a.slots[j]? <;> simp
  next => rfl

/-- What is released is found no more, and nothing else moves. -/
theorem get?_release (a : Arena α) (i j : Nat) :
    (a.release i).get? j = if i = j then none else a.get? j := by
  unfold get? release
  rw [Array.getElem?_modify]
  split
  next => cases a.slots[j]? <;> simp
  next => rfl

/-- A new object takes no slot of an old one. -/
theorem get?_add_of_get? {a : Arena α} {i : Nat} {y : α} (h : a.get? i = some y) (x : α) :
    (a.add x).get? i = some y := by
  rw [get?_add]
  split
  next hnext =>
    rw [a.get?_of_next_le (Nat.le_of_eq hnext.symm)] at h
    cases h
  next => exact h

theorem holds_add (a : Arena α) {i : Nat} (h : a.holds i = true) (x : α) :
    (a.add x).holds i = true := by
  obtain ⟨y, hy⟩ := Option.isSome_iff_exists.mp h
  exact Option.isSome_iff_exists.mpr ⟨y, get?_add_of_get? hy x⟩

/-- Adding an object brings none back. -/
theorem holds_of_holds_add {a : Arena α} {i : Nat} (hlt : i < a.next) {x : α}
    (h : (a.add x).holds i = true) : a.holds i = true := by
  unfold holds at h
  rwa [get?_add, if_neg (Nat.ne_of_lt hlt)] at h

theorem holds_of_holds_release {a : Arena α} {i j : Nat} (h : (a.release i).holds j = true) :
    a.holds j = true := by
  unfold holds at h
  rw [get?_release] at h
  split at h
  next => cases h
  next => exact h

theorem holds_modify (a : Arena α) (i : Nat) (f : α → α) (j : Nat) :
    (a.modify i f).holds j = a.holds j := by
  unfold holds
  rw [get?_modify]
  split
  next => exact Option.isSome_map
  next => rfl

@[simp] theorem next_add (a : Arena α) (x : α) : (a.add x).next = a.next + 1 := by
  simp [next, add]

@[simp] theorem next_modify (a : Arena α) (i : Nat) (f : α → α) :
    (a.modify i f).next = a.next := by
  simp [next, modify]

@[simp] theorem next_release (a : Arena α) (i : Nat) : (a.release i).next = a.next := by
  simp [next, release]

end Arena

end FencedLedger
