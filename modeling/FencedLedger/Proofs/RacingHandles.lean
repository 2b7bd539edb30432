import FencedLedger.Proofs.RacingLookups
import FencedLedger.Proofs.ServedHandles

/-!
# Handles handed out in races

Callers that take turns between the steps of their look-ups get the same handles as
callers that wait for one another. A look-up has its handle at the step at which it
finds one cached or makes one, and a deletion takes effect when the cache drops what it
has. In between there may be operations of every other kind, look-ups for reading among
them: such a look-up finds a handle or makes one, and nothing that it asks first decides
which. A look-up that ought to have been refused may get a handle in a race, and then it
is that one.
-/

namespace FencedLedger

namespace Racing

variable {c : Nat} {s s' : Racing} {turn : Turn} {history : List Served}

/-- What happens at the cache in a turn that is taken. -/
def servedBy (c : Nat) (s : Racing) : Turn → List Served
  | .seek i =>
      match s.lookups[i]? with
      | none => []
      | some x =>
          match s.host.cached? .writable c x.ledger with
          | none => []
          | some h => [.handed .writable c x.ledger h]
  | .make i =>
      match s.lookups[i]? with
      | none => []
      | some x =>
          s.host.handing .writable c x.ledger (s.host.obtainHandle c x.ledger x.presented).1
  | .evict i =>
      match s.evictions[i]? with
      | none => []
      | some l => [.told c l]
  | _ => []

/-- What happens next: a turn at one cache, or an operation that nobody interrupts. -/
inductive Move where
  | turn (turn : Turn)
  | op (op : Op)

/-- What happens at the caches until a turn cannot be taken, the first in front. -/
def servedOver (c : Nat) : Racing → List Move → List Served
  | _, [] => []
  | s, .op op :: moves =>
      s.host.servedBy op ++ servedOver c { s with host := (s.host.perform op).2 } moves
  | s, .turn turn :: moves =>
      match next c s turn with
      | none => []
      | some s' => s.servedBy c turn ++ servedOver c s' moves

/-- The step that makes the handle is the one at which the look-up has it. -/
theorem made_serves {w : Host} (x : Lookup) (h : w.Serves history) :
    (made w c x).Serves (history ++
      w.handing .writable c x.ledger (w.obtainHandle c x.ledger x.presented).1) := by
  have hopens := w.obtainHandle_opens c x.ledger x.presented
  unfold made
  cases hmade : w.obtainHandle c x.ledger x.presented with
  | mk answer w' =>
      rw [hmade] at hopens
      have hhanded : w'.Serves (history ++ w.handing .writable c x.ledger answer) :=
        (h.opens hopens).handing fun id hheld hid => Host.obtainHandle_cached hheld (hid ▸ hmade)
      cases answer with
      | error e => exact hhanded
      | ok id => exact hhanded.keeps (w'.showCached_idle c .writable).keepsHandles

/-- A turn hands out a handle that it found or made, or takes effect at the cache. -/
theorem next_serves (h : s.host.Serves history) (hnext : next c s turn = some s') :
    s'.host.Serves (history ++ s.servedBy c turn) := by
  cases turn with
  | call l presented replay =>
      cases hnext
      simpa [servedBy] using h
  | seek i =>
      obtain ⟨x, hx, -, rfl⟩ := advance_eq hnext
      rw [servedBy, hx]
      -- found or not, the host stays as it is
      have hsame : ∀ {p : Prop} [Decidable p] {a b : Lookup},
          (if p then (a, s.host) else (b, s.host)).2 = s.host := by
        intro p _ a b
        split <;> rfl
      dsimp only
      rw [hsame]
      split
      next => rwa [List.append_nil]
      next hcached => exact h.hands hcached
  | ask i =>
      obtain ⟨x, -, -, rfl⟩ := advance_eq hnext
      change Host.Serves (history ++ []) _
      rw [List.append_nil]
      dsimp only
      split <;> exact h
  | make i =>
      obtain ⟨x, hx, -, rfl⟩ := advance_eq hnext
      rw [servedBy, hx]
      exact made_serves x h
  | fence l =>
      cases hnext
      change Host.Serves (history ++ []) _
      rw [List.append_nil]
      have heffect := s.host.perform_effect (.request .direct (.fence l))
      rw [Host.perform, Host.answer_host] at heffect
      exact heffect.serves rfl h
  | remove l =>
      obtain ⟨w, removals, rfl, honly, -⟩ := remove_eq hnext
      change Host.Serves (history ++ []) _
      rw [List.append_nil]
      exact h.keeps honly.keepsHandles
  | remember i =>
      change Host.Serves (history ++ []) _
      rw [List.append_nil]
      obtain ⟨removals, evictions, rfl | ⟨l, rfl⟩⟩ := remember_cases hnext
      · exact h
      · exact h.keeps (s.host.rememberDeletion_keepsHandles c l)
  | evict i =>
      obtain ⟨l, evictions, hl, rfl⟩ := evict_eq hnext
      rw [servedBy, hl]
      exact h.drops (s.host.dropHandles_drops c l) (s.host.dropHandles_next c l)
  | pass nanos =>
      cases hnext
      change Host.Serves (history ++ []) _
      rw [List.append_nil]
      exact h.keeps (s.host.pass_idle nanos).keepsHandles

/-- By induction on the run: the history so far says what the caches have. -/
theorem servedOver_law (h : s.host.Serves history) (moves : List Move) :
    OneHandle (history ++ servedOver c s moves) := by
  induction moves generalizing s history with
  | nil =>
      rw [servedOver, List.append_nil]
      exact h.law
  | cons move moves ih =>
      cases move with
      | op op =>
          rw [servedOver, ← List.append_assoc]
          exact ih (h.perform op)
      | turn turn =>
          unfold servedOver
          cases hnext : next c s turn with
          | none =>
              rw [List.append_nil]
              exact h.law
          | some s' =>
              rw [← List.append_assoc]
              exact ih (next_serves h hnext)

end Racing

namespace Host

/-- In every run, under every fault plan, and whatever turns callers take at one of the
caches between the operations: a look-up gets the same handle as an earlier one just when
the cache was not told in between that the ledger was deleted. -/
theorem one_handle_between_deletions (faults : Option FaultPlan) (c : Nat)
    (moves : List Racing.Move) :
    OneHandle (Racing.servedOver c (Racing.idle (start faults)) moves) :=
  Racing.servedOver_law (s := Racing.idle (start faults)) (start_serves faults) moves

/-- One look-up overtakes another, and a listener looks the ledger up when it is deleted. Then
the ledger is looked up once more, and so is another one. -/
def overtaking : List Racing.Move :=
  [.op (.createCache .trial), .turn (.call ⟨1⟩ [] false), .turn (.seek 0), .turn (.ask 0),
    .op (.openWritable 0 ⟨1⟩ [] false), .turn (.make 0),
    .op (.observe ⟨"after", some ⟨0, [], true⟩⟩), .op (.remove .direct ⟨1⟩),
    .op (.openWritable 0 ⟨1⟩ [] true), .op (.openWritable 0 ⟨2⟩ [] false)]

/-- The look-up that was overtaken gets the handle that the other one made. The listener gets
the next one, and shares it with whoever comes later. -/
theorem overtaken_lookup_shares_handle :
    ∃ first second listener last other,
      Racing.servedOver 0 (Racing.idle (start none)) overtaking =
        [.handed .writable 0 ⟨1⟩ first, .handed .writable 0 ⟨1⟩ second, .told 0 ⟨1⟩,
          .handed .writable 0 ⟨1⟩ listener, .handed .writable 0 ⟨1⟩ last,
          .handed .writable 0 ⟨2⟩ other] ∧
      first = second ∧ second ≠ listener ∧ listener = last ∧ last ≠ other := by
  have hlaw := one_handle_between_deletions none 0 overtaking
  obtain ⟨first, second, listener, last, other, hserved⟩ :
      ∃ first second listener last other,
        Racing.servedOver 0 (Racing.idle (start none)) overtaking =
          [.handed .writable 0 ⟨1⟩ first, .handed .writable 0 ⟨1⟩ second, .told 0 ⟨1⟩,
            .handed .writable 0 ⟨1⟩ listener, .handed .writable 0 ⟨1⟩ last,
            .handed .writable 0 ⟨2⟩ other] :=
    ⟨0, 0, 1, 1, 2, by decide⟩
  rw [hserved] at hlaw
  refine ⟨first, second, listener, last, other, hserved, ?_, ?_, ?_, ?_⟩
  · exact (@OneHandle.same_iff _ hlaw [] [] _ .writable 0 ⟨1⟩ first second rfl).mpr
      List.not_mem_nil
  · intro heq
    refine (@OneHandle.same_iff _ hlaw [_] [.told 0 ⟨1⟩] _ .writable 0 ⟨1⟩ second listener
      rfl).mp heq ?_
    exact List.mem_singleton_self _
  · exact (@OneHandle.same_iff _ hlaw [_, _, _] [] _ .writable 0 ⟨1⟩ listener last rfl).mpr
      List.not_mem_nil
  · rintro rfl
    have hsame := (@OneHandle.apart _ hlaw .writable 0 0 ⟨1⟩ ⟨2⟩ last (by simp) (by simp)).2
    exact absurd hsame (by decide)

end Host

end FencedLedger
