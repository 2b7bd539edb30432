import FencedLedger.FaultPlan
import FencedLedger.Proofs.Effects

/-!
# Scripts of faults

A plan of faults sees three things: faults are armed, all of them are cleared, and calls
are made. What it does is described here by the list of what it saw, without its tables:
the fault that was armed last for a kind of call stands until it is cleared, and answers as
many of the calls of that kind that it meets as it was armed for. Nothing that happens to
other kinds of call makes a difference.
-/

namespace FencedLedger

/-- What a plan of faults may see. -/
inductive FaultStep where
  /-- A fault is armed for a kind of call. -/
  | armed (call : StoreCall) (fault : Fault)
  /-- Every fault is disarmed. -/
  | cleared
  /-- A call is made, and the plan answers it or lets it pass. -/
  | called (call : StoreCall) (answer : Option StoreError)

namespace FaultStep

/-- Whether a step puts an end to the fault that stands for a kind of call. -/
def ends (c : StoreCall) : FaultStep → Bool
  | .armed c' _ => c' = c
  | .cleared => true
  | .called .. => false

/-- Whether a step is a call of a kind, failed or not. -/
def calls (c : StoreCall) : FaultStep → Bool
  | .called c' _ => c' = c
  | _ => false

end FaultStep

namespace Fault

/-- What a fault answers a call, once it met so many calls. -/
def reply (fault : Fault) (met : Nat) : Option StoreError :=
  if fault.remaining.all fun n => met < n then some fault.error else none

/-- What is armed of a fault once it met so many calls. A fault for no call at all is
disarmed by the first one that it meets. -/
def behind (fault : Fault) (met : Nat) : Option Fault :=
  match fault.remaining with
  | none => some fault
  | some n =>
      if met = 0 then some fault
      else if met < n then some { fault with remaining := some (n - met) }
      else none

@[simp] theorem behind_zero (fault : Fault) : fault.behind 0 = some fault := by
  unfold behind
  split
  next => rfl
  next => rw [if_pos rfl]

/-- What is armed of a fault behind a call that it meets. -/
def spent (fault : Fault) : Option Fault :=
  match fault.remaining with
  | none => some fault
  | some n => if n ≤ 1 then none else some { fault with remaining := some (n - 1) }

/-- What is armed of a fault answers the next call as the fault would. -/
theorem reply_of_behind (fault : Fault) (met : Nat) :
    (fault.behind met).bind (·.reply 0) = fault.reply met := by
  unfold behind
  cases hremaining : fault.remaining with
  | none => simp [reply, hremaining]
  | some n =>
      dsimp only
      by_cases hfirst : met = 0
      · rw [if_pos hfirst, Option.bind_some, hfirst]
      · rw [if_neg hfirst]
        by_cases hleft : met < n
        · simp [reply, hremaining, hleft, Nat.sub_pos_of_lt hleft]
        · simp [reply, hremaining, hleft]

/-- A fault that was met once more has one failure fewer ahead of it. -/
theorem behind_succ (fault : Fault) (met : Nat) :
    fault.behind (met + 1) = (fault.behind met).bind spent := by
  unfold behind
  cases hremaining : fault.remaining with
  | none => simp [spent, hremaining]
  | some n =>
      dsimp only
      rw [if_neg (Nat.succ_ne_zero met)]
      by_cases hfirst : met = 0
      · subst hfirst
        rw [if_pos rfl, Option.bind_some, spent, hremaining]
        dsimp only
        by_cases hlast : n ≤ 1
        · rw [if_neg (by omega), if_pos hlast]
        · rw [if_pos (by omega), if_neg hlast]
      · rw [if_neg hfirst]
        by_cases hgone : met < n
        · rw [if_pos hgone, Option.bind_some, spent]
          dsimp only
          by_cases hlast : n - met ≤ 1
          · rw [if_neg (by omega), if_pos hlast]
          · rw [if_pos (by omega), if_neg hlast]
            congr 3
        · rw [if_neg hgone, if_neg (by omega), Option.bind_none]

end Fault

namespace FaultPlan

/-! ### What a plan saw -/

/-- A plan sees one step. -/
inductive Sees : FaultPlan → FaultStep → FaultPlan → Prop
  | arm (p : FaultPlan) (c : StoreCall) (fault : Fault) : Sees p (.armed c fault) (p.arm c fault)
  | clear (p : FaultPlan) : Sees p .cleared p.clear
  | enter (p : FaultPlan) (c : StoreCall) : Sees p (.called c (p.enter c).1) (p.enter c).2

/-- A plan sees one step after the other. -/
inductive Follows (p : FaultPlan) : List FaultStep → FaultPlan → Prop
  | refl : Follows p [] p
  | snoc {p' p'' : FaultPlan} {log : List FaultStep} {step : FaultStep}
      (before : Follows p log p') (last : Sees p' step p'') : Follows p (log ++ [step]) p''

theorem Follows.trans {p p' p'' : FaultPlan} {log log' : List FaultStep}
    (h : Follows p log p') (h' : Follows p' log' p'') : Follows p (log ++ log') p'' := by
  induction h' with
  | refl => rwa [List.append_nil]
  | snoc _ last ih => exact List.append_assoc .. ▸ ih.snoc last

/-- A fault was armed for a kind of call, was neither replaced nor cleared since, and met
so many calls. -/
def Stands (log : List FaultStep) (c : StoreCall) (fault : Fault) (met : Nat) : Prop :=
  ∃ earlier since, log = earlier ++ .armed c fault :: since ∧
    (∀ step ∈ since, step.ends c = false) ∧ since.countP (FaultStep.calls c) = met

variable {log : List FaultStep} {p p' : FaultPlan} {c : StoreCall} {fault : Fault} {met : Nat}

/-- The last step armed the fault, or it left alone the one that stood. -/
theorem stands_concat_iff {step : FaultStep} :
    Stands (log ++ [step]) c fault met ↔ step = .armed c fault ∧ met = 0 ∨
      step.ends c = false ∧ ∃ before, Stands log c fault before ∧
        met = before + if step.calls c then 1 else 0 := by
  constructor
  · rintro ⟨earlier, since, hsplit, hstands, rfl⟩
    rcases Host.concat_eq_append_cons hsplit with ⟨rfl, -, rfl⟩ | ⟨rest, rfl, rfl⟩
    · exact Or.inl ⟨rfl, rfl⟩
    · refine Or.inr ⟨hstands step (by simp), _, ⟨earlier, rest, rfl, ?_, rfl⟩, ?_⟩
      · exact fun step' hmem => hstands step' (List.mem_append_left _ hmem)
      · rw [List.countP_append, List.countP_singleton]
  · rintro (⟨rfl, rfl⟩ | ⟨hends, before, ⟨earlier, since, rfl, hstands, rfl⟩, rfl⟩)
    · exact ⟨log, [], rfl, by simp, rfl⟩
    · refine ⟨earlier, since ++ [step], by simp, fun step' hmem => ?_, ?_⟩
      · rcases List.mem_append.mp hmem with hmem | hmem
        · exact hstands step' hmem
        · exact List.mem_singleton.mp hmem ▸ hends
      · rw [List.countP_append, List.countP_singleton]

/-! ### What a plan does -/

theorem armed_arm (p : FaultPlan) (c c' : StoreCall) (fault : Fault) :
    (p.arm c fault).armed.get? c' = if c = c' then some fault else p.armed.get? c' :=
  Table.get?_insert _ _ _ _

/-- Only the fault that was met is used up. -/
theorem armed_spend (h : p.armed.get? c = some fault) (c' : StoreCall) :
    (p.spend c fault).armed.get? c' = if c = c' then fault.spent else p.armed.get? c' := by
  unfold spend Fault.spent
  cases fault.remaining with
  | none =>
      dsimp only
      split
      next heq => rw [← heq, h]
      next => rfl
  | some n =>
      by_cases hlast : n ≤ 1
      · simp only [if_pos hlast]
        exact Table.get?_erase _ _ _
      · simp only [if_neg hlast]
        exact armed_arm _ _ _ _

/-- A call spends the fault of its kind. -/
theorem armed_enter (p : FaultPlan) (c c' : StoreCall) :
    (p.enter c).2.armed.get? c' =
      if c = c' then (p.armed.get? c).bind Fault.spent else p.armed.get? c' := by
  cases hfault : p.armed.get? c with
  | none =>
      have hpassed : (p.enter c).2 = p.tally c := by
        unfold enter tally
        simp only [hfault]
      rw [hpassed]
      split
      next heq => rw [← heq, Option.bind_none]; exact hfault
      next => rfl
  | some fault =>
      have hmet : (p.enter c).2 = (p.tally c).spend c fault := by
        unfold enter tally
        simp only [hfault]
      rw [hmet, Option.bind_some]
      exact armed_spend (p := p.tally c) hfault c'

/-- What is armed answers. -/
theorem enter_answer (p : FaultPlan) (c : StoreCall) :
    (p.enter c).1 = (p.armed.get? c).bind (·.reply 0) := by
  unfold enter tally Fault.reply
  dsimp only
  split
  next hnone => rw [hnone, Option.bind_none]
  next fault hfault =>
    rw [hfault, Option.bind_some]
    cases fault.remaining with
    | none => simp
    | some n => cases n <;> simp

/-- A plan does what it saw asks for. For each kind of call it has armed what is left of
the fault that stands, and nothing where none stands; and it counted the calls. Every call
was answered by the fault that stood then, as long as that answers, and by no other. -/
structure Heeds (log : List FaultStep) (p : FaultPlan) : Prop where
  standing : ∀ {c fault met}, Stands log c fault met → p.armed.get? c = fault.behind met
  unarmed : ∀ {c}, (∀ fault met, ¬ Stands log c fault met) → p.armed.get? c = none
  counted : ∀ c, p.count c = log.countP (FaultStep.calls c)
  answered : ∀ {before c answer after}, log = before ++ .called c answer :: after →
    (∀ fault met, Stands before c fault met → answer = fault.reply met) ∧
      ((∀ fault met, ¬ Stands before c fault met) → answer = none)

/-- An empty plan heeds an empty script. -/
theorem empty_heeds : Heeds [] empty where
  standing := by
    rintro c fault met ⟨earlier, since, hsplit, -⟩
    cases (List.append_eq_nil_iff.mp hsplit.symm).2
  unarmed _ := rfl
  counted _ := rfl
  answered hsplit := by cases (List.append_eq_nil_iff.mp hsplit.symm).2

namespace Heeds

variable (h : Heeds log p) {step : FaultStep} (hsees : Sees p step p')

include h

/-- A call is answered by the fault that stands, and passes where none stands. -/
theorem enter_answer (c : StoreCall) :
    (∀ fault met, Stands log c fault met → (p.enter c).1 = fault.reply met) ∧
      ((∀ fault met, ¬ Stands log c fault met) → (p.enter c).1 = none) := by
  rw [p.enter_answer c]
  constructor
  · intro fault met hstands
    rw [h.standing hstands, Fault.reply_of_behind]
  · intro hnone
    rw [h.unarmed hnone, Option.bind_none]

include hsees

/-- The fault that stands for a call is armed with what is left of it. -/
theorem standing_concat (hstands : Stands (log ++ [step]) c fault met) :
    p'.armed.get? c = fault.behind met := by
  rcases stands_concat_iff.mp hstands with ⟨rfl, rfl⟩ | ⟨hends, before, hbefore, rfl⟩
  · cases hsees
    rw [armed_arm, if_pos rfl, Fault.behind_zero]
  · have harmed := h.standing hbefore
    cases hsees with
    | arm c' other =>
        have hne : ¬ c' = c := of_decide_eq_false hends
        rw [armed_arm, if_neg hne]
        exact harmed
    | clear => cases hends
    | enter c' =>
        rw [armed_enter]
        by_cases heq : c' = c
        · subst heq
          rw [if_pos rfl, harmed, ← Fault.behind_succ, FaultStep.calls, decide_eq_true rfl,
            if_pos rfl]
        · rw [if_neg heq, FaultStep.calls, decide_eq_false heq]
          exact harmed

/-- Where no fault stands, none is armed. -/
theorem unarmed_concat (hnone : ∀ fault met, ¬ Stands (log ++ [step]) c fault met) :
    p'.armed.get? c = none := by
  -- what stood before would stand still, unless the step ended it
  have hbefore : step.ends c = false → p.armed.get? c = none := fun hends =>
    h.unarmed fun fault met hstands =>
      hnone fault _ (stands_concat_iff.mpr (Or.inr ⟨hends, met, hstands, rfl⟩))
  cases hsees with
  | arm c' other =>
      have hne : ¬ c' = c := by
        rintro rfl
        exact hnone other 0 (stands_concat_iff.mpr (Or.inl ⟨rfl, rfl⟩))
      rw [armed_arm, if_neg hne]
      exact hbefore (decide_eq_false hne)
  | clear => rfl
  | enter c' =>
      rw [armed_enter]
      split
      next heq => rw [heq, hbefore rfl, Option.bind_none]
      next => exact hbefore rfl

/-- The plan heeds its script from one step to the next. -/
theorem concat : Heeds (log ++ [step]) p' where
  standing := h.standing_concat hsees
  unarmed := h.unarmed_concat hsees
  counted c := by
    rw [List.countP_append, List.countP_singleton, ← h.counted]
    cases hsees with
    | arm | clear => rfl
    | enter c' =>
        rw [count_enter]
        simp [FaultStep.calls]
  answered {before c answer after} hsplit := by
    rcases Host.concat_eq_append_cons hsplit with ⟨-, rfl, rfl⟩ | ⟨rest, -, rfl⟩
    · cases hsees
      exact h.enter_answer c
    · exact h.answered rfl

end Heeds

/-- A plan that is empty at first does what it sees asks for. -/
theorem heeds_of_follows (h : Follows empty log p) : Heeds log p := by
  induction h with
  | refl => exact empty_heeds
  | snoc _ last ih => exact ih.concat last

end FaultPlan

end FencedLedger
