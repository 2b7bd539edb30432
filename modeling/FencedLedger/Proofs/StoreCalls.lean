import FencedLedger.Proofs.AcceptedEntries
import FencedLedger.Proofs.FailedCalls

/-!
# How operations call on the store

An operation that calls on the store sends one request or submits one entry, on the way that
its caller chose or on behalf of a handle. A handle may refuse the call, and then nothing is
asked. So what requests and entries do says what the operation does, whoever made the call.
Operations that delete, open or fence may ask for several things, and are none of these.
-/

namespace FencedLedger

namespace Host

variable {w : Host} {op : Op} {handle : HandleRef}

/-- The request that a call on a handle sends to the store. A reader refuses some calls. -/
def forwarded? (w : Host) : HandleRef → HandleCall → Option Request
  | .writable h, call => call.request? (w.handleAt h).ledger
  | .reader r, call =>
      match call.guarded? with
      | some _ => none
      | none => call.request? (w.ledgerOf (.reader r))

/-- The request that an operation sends to the store. -/
def sent? (w : Host) : Op → Option Request
  | .request _ r => some r
  | .use handle call => if w.knowsHandle handle then w.forwarded? handle call else none
  | _ => none

/-- What an operation that calls on the store comes to. -/
inductive Consults (w : Host) (op : Op) : Prop where
  /-- It sends a request and passes the answer on. -/
  | sends (access : Access) (r : Request) (hsent : w.sent? op = some r)
      (host : (w.perform op).2 = (w.request access r).2)
      (answer : ∀ a, (w.perform op).1 = .ok a ↔ (w.request access r).1 = .ok a)
  /-- It submits an entry. -/
  | submits (access : Access) (entry : Bytes) (hsubmitted : op.submitted? = some entry)
      (hsent : w.sent? op = none) (host : (w.perform op).2 = (w.append access entry).2)
  /-- The call does not get that far. -/
  | stays (hsent : w.sent? op = none) (intact : Intact w (w.perform op).2)

theorem forward_ok {r : Request} (w : Host) (a : Answer) :
    (w.forward r).1 = .ok a ↔ (w.request .planned r).1 = .ok a := by
  unfold forward
  rcases w.request .planned r with ⟨e | a', w'⟩ <;> simp

theorem answer_ok_iff {ε : Type} {wrap : ε → Failure} {r : Except ε Answer × Host} {a : Answer} :
    (answer wrap id r).1 = .ok a ↔ r.1 = .ok a := by
  rcases r with ⟨e | a', w'⟩ <;> simp [answer]

section Handles

variable {call : HandleCall} (hheld : w.knowsHandle handle = true)

include hheld

theorem perform_use_of_held :
    w.perform (.use handle call) = answer .handle id (w.use handle call) := if_pos hheld

theorem sent?_use_of_held : w.sent? (.use handle call) = w.forwarded? handle call := if_pos hheld

/-- A call that the handle passes on is one request. -/
theorem consults_of_forward {r : Request} (hforwarded : w.forwarded? handle call = some r)
    (huse : w.use handle call = w.forward r) : Consults w (.use handle call) := by
  have hperform : w.perform (.use handle call) = answer .handle id (w.forward r) := by
    rw [perform_use_of_held hheld, huse]
  refine .sends .planned r ?_ ?_ fun a => ?_
  · rw [sent?_use_of_held hheld, hforwarded]
  · rw [hperform, answer_host, forward_host]
  · rw [hperform, answer_ok_iff, forward_ok]

theorem consults_of_intact (hforwarded : w.forwarded? handle call = none)
    (huse : Intact w (w.use handle call).2) : Consults w (.use handle call) := by
  refine .stays ?_ ?_
  · rw [sent?_use_of_held hheld, hforwarded]
  · rwa [perform_use_of_held hheld, answer_host]

end Handles

/-- A call on a handle sends a request, submits an entry or asks for nothing. -/
theorem use_consults (hheld : w.knowsHandle handle = true) (call : HandleCall) :
    Consults w (.use handle call) := by
  cases handle with
  | writable h =>
      cases call with
      | access presented =>
          refine consults_of_intact hheld rfl ?_
          rw [use_access_host]
          exact checkAccess_intact w h presented
      | append entry =>
          rcases w.appendThrough_host (w.handleAt h).ledger entry with hrefused | ⟨-, hsubmitted⟩
          · exact consults_of_intact hheld rfl (hrefused.symm ▸ .refl w)
          · refine .submits .planned entry rfl (sent?_use_of_held hheld) ?_
            rw [perform_use_of_held hheld, answer_host]
            exact hsubmitted
      | _ => exact consults_of_forward hheld rfl rfl
  | reader r =>
      cases call with
      | access | fence | append | noteConfirmed => exact consults_of_intact hheld rfl (.refl w)
      | _ => exact consults_of_forward hheld rfl rfl

/-- Every operation that calls on the store sends a request, submits an entry, or does not get
that far. -/
theorem perform_consults (w : Host) (h : op.callsStore = true) : Consults w op := by
  cases op with
  | request access r =>
      refine .sends access r rfl (answer_host _ _ _) fun a => ?_
      exact answer_ok_iff
  | append access entry => exact .submits access entry rfl rfl (answer_host _ _ _)
  | use handle call =>
      cases hheld : w.knowsHandle handle with
      | true => exact use_consults hheld call
      | false =>
          have hunknown : ¬ w.knowsHandle handle = true := by simp [hheld]
          refine .stays (if_neg hunknown) ?_
          have hperform : w.perform (.use handle call) = (.error .unknown, w) := if_neg hunknown
          rw [hperform]
          exact .refl w
  | _ => cases h

end Host

end FencedLedger
