import FencedLedger.Error
import FencedLedger.Table

/-!
# Planned faults

A store can be made to fail on purpose. A fault is armed for one kind of call
and answers those calls in place of the store, a number of times or until it is
cleared. The plan also counts the calls of each kind, failed or not.
-/

namespace FencedLedger

/-- The kinds of call on the store. -/
inductive StoreCall where
  | bindKey
  | key
  | holds
  | append
  | entry
  | fence
  | isFenced
  | noteConfirmed
  | notedConfirmed
  | confirmed
  | watch
  | unwatch
  | entryIds
  | remove
  deriving DecidableEq, Repr

namespace StoreCall

/-- Every kind of call. -/
def all : List StoreCall :=
  [.bindKey, .key, .holds, .append, .entry, .fence, .isFenced, .noteConfirmed, .notedConfirmed,
    .confirmed, .watch, .unwatch, .entryIds, .remove]

/-- The published name of a kind of call. -/
def name : StoreCall → String
  | .bindKey => "SetMasterKey"
  | .key => "ReadMasterKey"
  | .holds => "LedgerExists"
  | .append => "AddEntry"
  | .entry => "GetEntry"
  | .fence => "SetFenced"
  | .isFenced => "IsFenced"
  | .noteConfirmed => "SetExplicitLac"
  | .notedConfirmed => "GetExplicitLac"
  | .confirmed => "GetLastAddConfirmed"
  | .watch => "WaitForLacUpdate"
  | .unwatch => "CancelWaitForLacUpdate"
  | .entryIds => "ListEntries"
  | .remove => "DeleteLedger"

/-- The kind of call with the given name. -/
def ofName? (name : String) : Option StoreCall := all.find? fun c => c.name = name

end StoreCall

/-- A fault that answers calls in place of the store. -/
structure Fault where
  /-- How many more calls it answers, or all of them. -/
  remaining : Option Nat
  /-- What it answers. -/
  error : StoreError
  deriving DecidableEq, Repr

/-- The armed faults and the counted calls. -/
structure FaultPlan where
  /-- The armed fault of each kind of call. -/
  armed : Table StoreCall Fault
  /-- The calls made of each kind. -/
  made : Table StoreCall Nat

namespace FaultPlan

/-- The plan without faults, before any call. -/
def empty : FaultPlan := ⟨.empty, .empty⟩

/-- Arm a fault for a kind of call, in place of the one that is armed. -/
def arm (p : FaultPlan) (call : StoreCall) (fault : Fault) : FaultPlan :=
  { p with armed := p.armed.insert call fault }

/-- Disarm every fault. -/
def clear (p : FaultPlan) : FaultPlan := { p with armed := .empty }

/-- The number of calls made of a kind. -/
def count (p : FaultPlan) (call : StoreCall) : Nat := (p.made.get? call).getD 0

/-- Count a call. -/
def tally (p : FaultPlan) (call : StoreCall) : FaultPlan :=
  { p with made := p.made.insert call (p.count call + 1) }

/-- The plan behind one call that the armed fault of its kind answers. -/
def spend (p : FaultPlan) (call : StoreCall) (fault : Fault) : FaultPlan :=
  match fault.remaining with
  | none => p
  | some n =>
      if n ≤ 1 then { p with armed := p.armed.erase call }
      else p.arm call { fault with remaining := some (n - 1) }

/-- Make a call of a kind. Answers the error, if a fault answers the call. -/
def enter (p : FaultPlan) (call : StoreCall) : Option StoreError × FaultPlan :=
  let p := p.tally call
  match p.armed.get? call with
  | none => (none, p)
  | some fault =>
      (if fault.remaining = some 0 then none else some fault.error, p.spend call fault)

/-- A call that was made is counted once, under its kind. -/
theorem count_tally (p : FaultPlan) (c c' : StoreCall) :
    (p.tally c).count c' = p.count c' + if c = c' then 1 else 0 := by
  unfold count tally
  rw [Table.get?_insert]
  by_cases heq : c = c'
  · subst heq
    simp [count]
  · simp [heq]

theorem count_spend (p : FaultPlan) (c c' : StoreCall) (fault : Fault) :
    (p.spend c fault).count c' = p.count c' := by
  unfold spend
  split
  next => rfl
  next => split <;> rfl

/-- A call is counted, whether a fault answers it or not. -/
theorem count_enter (p : FaultPlan) (c c' : StoreCall) :
    (p.enter c).2.count c' = p.count c' + if c = c' then 1 else 0 := by
  rw [← count_tally]
  unfold enter
  dsimp only
  split
  next => rfl
  next => exact count_spend _ c c' _

/-- A plan as diagnostic dumps show it: the armed kinds of call. -/
def dump (p : FaultPlan) : String :=
  "FaultyStorage \x7b armed: [" ++ String.intercalate ", " (p.armed.keys.map StoreCall.name) ++
    "], .. \x7d"

end FaultPlan

end FencedLedger
