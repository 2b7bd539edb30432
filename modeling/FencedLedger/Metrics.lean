import FencedLedger.ErrorCode
import FencedLedger.Table

/-!
# Metrics

Counters of what happened and gauges of what is there. A counter is listed from
its first increment on and a gauge from the first time it is set, also to zero.
-/

namespace FencedLedger

/-- How a fence call was answered. -/
inductive FencePath where
  /-- The call fenced the ledger, and appends the marker. -/
  | first
  /-- The marker is durable. -/
  | alreadyPersisted
  /-- The call joins the append under way. -/
  | inFlight
  /-- The last append failed or never ran, and the call appends the marker
  again. -/
  | retry
  deriving DecidableEq, Repr

/-- The label of a path. -/
def FencePath.label : FencePath → String
  | .first => "first"
  | .alreadyPersisted => "already_persisted"
  | .inFlight => "in_flight"
  | .retry => "retry"

/-- Why a fence marker did not become durable. -/
inductive LogFailure where
  /-- The journal reported a failure. -/
  | code
  /-- The submitting thread was interrupted. -/
  | interrupted
  /-- The journal refused the marker. -/
  | journal
  deriving DecidableEq, Repr

/-- The label of a reason. -/
def LogFailure.label : LogFailure → String
  | .code => "rc"
  | .interrupted => "interrupted"
  | .journal => "journal"

/-- What is counted. -/
inductive Counter where
  /-- Answered fence calls. -/
  | fenceAttempts (path : FencePath)
  /-- Handles whose marker became durable. -/
  | fencePersisted
  /-- Markers that did not become durable. -/
  | fenceLogFailures (reason : LogFailure)
  /-- Refused keys. -/
  | unauthorized
  /-- Handles that were not handed out. -/
  | handleErrors (code : ErrorCode)
  /-- Ledgers that the memory of deletions gave up for its capacity. -/
  | evictions
  deriving DecidableEq, Repr

/-- The name of a counter, with its label. -/
def Counter.name : Counter → String
  | .fenceAttempts path =>
      "ledger_host_fence_attempts_total\x7bpath=" ++ path.label ++ "\x7d"
  | .fencePersisted => "ledger_host_fence_persisted_total"
  | .fenceLogFailures reason =>
      "ledger_host_fence_log_failures_total\x7breason=" ++ reason.label ++ "\x7d"
  | .unauthorized => "ledger_host_unauthorized_access_total"
  | .handleErrors code => "ledger_host_handle_errors_total\x7bcode=" ++ code.text ++ "\x7d"
  | .evictions => "ledger_host_recently_deleted_evictions_total"

/-- The kinds of cached handle. -/
inductive HandleKind where
  | writable
  | readOnly
  deriving DecidableEq, Repr

/-- The name of the gauge of a kind of cached handle. -/
def HandleKind.gaugeName : HandleKind → String
  | .writable => "ledger_host_cached_handles\x7bkind=writable\x7d"
  | .readOnly => "ledger_host_cached_handles\x7bkind=read_only\x7d"

/-- Counters and gauges. -/
structure Metrics where
  /-- The counters incremented so far. -/
  counters : Table Counter Nat
  /-- The gauges set so far. -/
  gauges : Table HandleKind Nat

namespace Metrics

/-- Nothing counted yet. -/
def empty : Metrics := ⟨.empty, .empty⟩

/-- The value of a counter. -/
def count (m : Metrics) (c : Counter) : Nat := (m.counters.get? c).getD 0

/-- Increment a counter. -/
def add (m : Metrics) (c : Counter) (n : Nat) : Metrics :=
  { m with counters := m.counters.insert c (m.count c + n) }

/-- Counting goes to one counter. -/
theorem count_add (m : Metrics) (c : Counter) (n : Nat) (c' : Counter) :
    (m.add c n).count c' = m.count c' + if c = c' then n else 0 := by
  unfold count add
  dsimp only
  rw [Table.get?_insert]
  split
  next heq =>
    subst heq
    rfl
  next => rfl

/-- Set a gauge. -/
def set (m : Metrics) (kind : HandleKind) (value : Nat) : Metrics :=
  { m with gauges := m.gauges.insert kind value }

/-- Everything counted and set, by name. -/
def series (m : Metrics) : List (String × Nat) :=
  m.counters.entries.map (fun b => (b.1.name, b.2)) ++
    m.gauges.entries.map (fun b => (b.1.gaugeName, b.2))

end Metrics

end FencedLedger
