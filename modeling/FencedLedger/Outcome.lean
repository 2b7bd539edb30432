import FencedLedger.Error

/-!
# Outcomes of fence markers

The outcome of appending a fence marker is pending at first and settled once.
Whoever fences the ledger while the append is under way shares the outcome.
-/

namespace FencedLedger

/-- How an append ended: whether the marker is durable, or why nobody knows. -/
abbrev FenceResult := Except FenceError Bool

/-- The outcome of an append. -/
structure Outcome where
  /-- How the append ended, once it has. -/
  result : Option FenceResult

namespace Outcome

/-- The outcome of an append that is under way. -/
def pending : Outcome := ⟨none⟩

/-- An outcome that is settled from the start. -/
def settled (r : FenceResult) : Outcome := ⟨some r⟩

instance : Inhabited Outcome := ⟨pending⟩

/-- Whether the append ended. -/
def isDone (o : Outcome) : Bool := o.result.isSome

/-- End the append. The first end counts. -/
def settle (o : Outcome) (r : FenceResult) : Outcome :=
  match o.result with
  | none => settled r
  | some _ => o

/-- The outcome as diagnostic dumps show it. -/
def dump (o : Outcome) : String :=
  match o.result with
  | none => "FenceOutcome(<pending>)"
  | some (.ok durable) => "FenceOutcome(Ok(" ++ toString durable ++ "))"
  | some (.error e) => "FenceOutcome(Err(" ++ e.dump ++ "))"

end Outcome

end FencedLedger
