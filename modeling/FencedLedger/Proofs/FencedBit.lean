import FencedLedger.Proofs.StartedMarkers
import Mathlib.Data.List.Induction

/-!
# Durable marks and fenced bits

A handle that is marked as durably fenced had its ledger fenced when its marker
was decided on. The bit then stays set until the ledger is removed. A ledger
that is created anew under the same id is not fenced, and handles of the removed
one that are still held keep their mark. So a marked handle of a ledger that the
store holds has the ledger fenced exactly when every creation of the ledger
since then was followed by a call that set the bit. It need not have been a call
of that handle.
-/

namespace FencedLedger

namespace Host

variable {w : Host} {op : Op} {l : LedgerId}

/-- Whether the append of a marker was ever decided on for the handle with the
given number. -/
def decidedFor (w : Host) (h : Nat) : Bool := (w.handles.get? h).any Handle.started

/-- The operation sets the fenced bit of a ledger. -/
def setsFenced (w : Host) (op : Op) (l : LedgerId) : Prop :=
  w.store.holdsFenced l = false ∧ (w.perform op).2.store.holdsFenced l = true

/-- If the bit is clear at first and set at last, some operation set it. -/
theorem exists_setsFenced (hclear : w.store.holdsFenced l = false) (ops : List Op)
    (hset : (w.run ops).store.holdsFenced l = true) :
    ∃ mid op rest, ops = mid ++ op :: rest ∧ (w.run mid).setsFenced op l := by
  induction ops generalizing w with
  | nil =>
      change w.store.holdsFenced l = true at hset
      rw [hclear] at hset
      cases hset
  | cons op ops ih =>
      cases hbit : (w.perform op).2.store.holdsFenced l with
      | true => exact ⟨[], op, ops, rfl, hclear, hbit⟩
      | false =>
          obtain ⟨mid, op', rest, hsplit, hsets⟩ := ih hbit hset
          exact ⟨op :: mid, op', rest, by rw [hsplit]; rfl, hsets⟩

/-- Each creation of a ledger since an append was decided on for the handle was
followed by an operation that set the bit. -/
def RefencedSince (w : Host) (ops : List Op) (h : Nat) (l : LedgerId) : Prop :=
  ∀ pre op post, ops = pre ++ op :: post → (w.run pre).decidedFor h = true →
    (w.run pre).recreates op l →
    ∃ mid op' rest, post = mid ++ op' :: rest ∧ (w.run (pre ++ op :: mid)).setsFenced op' l

/-- After a re-creation the bit is clear, so it takes an operation to set it. -/
theorem refencedSince_of_fenced {ops : List Op} (h : Nat)
    (hfenced : (w.run ops).store.holdsFenced l = true) : RefencedSince w ops h l := by
  intro pre op post hsplit _ hrecreates
  have hclear := unfenced_of_recreates hrecreates
  rw [← run_concat] at hclear
  rw [hsplit, List.append_cons, run_append] at hfenced
  obtain ⟨mid, op', rest, hpost, hsets⟩ := exists_setsFenced hclear post hfenced
  refine ⟨mid, op', rest, hpost, ?_⟩
  rwa [List.append_cons, run_append]

/-- An operation that sets no bit makes up for no creation. -/
theorem RefencedSince.init {ops : List Op} {h : Nat}
    (hrefenced : RefencedSince w (ops ++ [op]) h l)
    (hunset : ¬ (w.run ops).setsFenced op l) : RefencedSince w ops h l := by
  intro pre op' post hsplit hdecided hrecreates
  obtain ⟨mid, op'', rest, hpost, hsets⟩ :=
    hrefenced pre op' (post ++ [op]) (by simp [hsplit]) hdecided hrecreates
  rcases List.eq_nil_or_concat rest with rfl | ⟨rest', last, rfl⟩
  · -- the operation that set the bit would be the last one
    obtain ⟨rfl, hlast⟩ := List.append_inj' hpost rfl
    cases hlast
    rw [← hsplit] at hsets
    exact absurd hsets hunset
  · refine ⟨mid, op'', rest', ?_, hsets⟩
    have hpost' : post ++ [op] = (mid ++ op'' :: rest') ++ [last] := by simpa using hpost
    exact (List.append_inj' hpost' rfl).1

/-- By induction on the run from its end. The bit is set when the append is
decided on, and only a re-creation, which was followed by a call that set it,
can have left it clear. -/
theorem fenced_of_refencedSince {ops : List Op} {h : Nat} {x : Handle}
    (hx : (w.run ops).handles.get? h = some x) (hstarted : x.started = true)
    (hheld : (w.run ops).store.ledgers.contains x.ledger = true)
    (hstart : w.decidedFor h = false) (hrefenced : RefencedSince w ops h x.ledger) :
    (w.run ops).store.holdsFenced x.ledger = true := by
  induction ops using List.reverseRecOn generalizing x with
  | nil =>
      change w.handles.get? h = some x at hx
      unfold decidedFor at hstart
      rw [hx] at hstart
      change x.started = false at hstart
      rw [hstart] at hstarted
      cases hstarted
  | append_singleton ops op ih =>
      -- an operation that does not set the bit was no answer to a creation before it
      by_cases hsets : (w.run ops).setsFenced op x.ledger
      · rw [run_concat]
        exact hsets.2
      · have hinit := hrefenced.init hsets
        rw [run_concat] at hx hheld ⊢
        rcases (perform_effect (w.run ops) op).newly_started hx hstarted with
          hfenced | ⟨y, hy, hledger, hbefore⟩
        · exact hfenced
        · have hdecided : (w.run ops).decidedFor h = true := by
            unfold decidedFor
            rw [hy]
            exact hbefore
          have hnot : ¬ (w.run ops).recreates op x.ledger := by
            -- nothing follows a creation by the last operation
            intro hrecreates
            obtain ⟨mid, op', rest, hpost, -⟩ := hrefenced ops op [] rfl hdecided hrecreates
            cases mid <;> cases hpost
          refine fenced_of_not_recreates hheld hnot fun hheld => ?_
          rw [← hledger] at hheld hinit ⊢
          exact ih hy hbefore hheld hinit

/-- After every run, a marked handle of a ledger that the store holds has the
ledger fenced exactly when each creation of the ledger since the handle's marker
was decided on was followed by an operation that set the bit. -/
theorem marked_fenced_iff (faults : Option FaultPlan) (ops : List Op) {h : Nat} {x : Handle}
    (hx : ((start faults).run ops).handles.get? h = some x) (hmarked : x.persisted = true)
    (hheld : ((start faults).run ops).store.ledgers.contains x.ledger = true) :
    ((start faults).run ops).store.holdsFenced x.ledger = true ↔
      RefencedSince (start faults) ops h x.ledger := by
  refine ⟨refencedSince_of_fenced h, ?_⟩
  have hstarted := (run_markersStarted (start_markersStarted faults) ops).persisted hx hmarked
  exact fenced_of_refencedSince hx hstarted hheld rfl

/-- A ledger is opened, fenced and deleted, and opened again by a replay. -/
def reopening : List Op :=
  [.createScriptedJournal (.immediate .ok), .createCache .standard,
    .openWritable 0 ⟨1⟩ [0x6b] false, .fence (.writable 0) (.journal 0) (.worker 0),
    .remove .planned ⟨1⟩, .openWritable 0 ⟨1⟩ [0x6b] true]

/-- Nobody fences the ledger again, so its first handle is marked in vain. -/
theorem not_refencedSince_reopening : ¬ RefencedSince (start none) reopening 0 ⟨1⟩ := by
  intro hrefenced
  have hfenced := (marked_fenced_iff none reopening (h := 0)
    (x := ⟨⟨1⟩, ⟨[0x6b]⟩, false, some 0, true⟩) rfl rfl (by decide)).mpr hrefenced
  exact absurd hfenced (by decide)

/-- A marked handle does not always have its ledger fenced. -/
theorem marked_unfenced_after_reopening :
    ¬ ∀ (faults : Option FaultPlan) (ops : List Op) (h : Nat) (x : Handle),
      ((start faults).run ops).handles.get? h = some x → x.persisted = true →
      ((start faults).run ops).store.ledgers.contains x.ledger = true →
      ((start faults).run ops).store.holdsFenced x.ledger = true := by
  intro hall
  have hfenced := hall none reopening 0 ⟨⟨1⟩, ⟨[0x6b]⟩, false, some 0, true⟩ rfl rfl (by decide)
  exact absurd hfenced (by decide)

end Host

end FencedLedger
