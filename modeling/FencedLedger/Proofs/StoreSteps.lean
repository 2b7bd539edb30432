import FencedLedger.Proofs.Effects

/-!
# What calls on the store keep

To find a handle, to make one and to forget those of a deleted ledger, the store is asked,
something is counted, and the objects that callers hold change. A relation between hosts
that holds of each of these steps, and of one after the other, holds of every look-up. One
that also holds of whole appends and deletions holds of every operation that asks the store
for something.
-/

namespace FencedLedger

/-- Whether a counter counts fence calls or what became of their markers. -/
def Counter.concernsFencing : Counter → Bool
  | .fenceAttempts _ | .fencePersisted | .fenceLogFailures _ => true
  | .unauthorized | .handleErrors _ | .evictions => false

/-- Whether an operation is carried out by asking the store, durable fencing apart. -/
def Op.asksStore : Op → Bool
  | .request .. | .append .. | .remove .. | .openWritable .. | .openReader .. | .tellCache ..
  | .createHandle .. | .createReader _ | .use .. => true
  | _ => false

/-- Whether an operation makes a journal or an outcome, or tells a journal what to do
next. -/
def Op.setsUp : Op → Bool
  | .createMemoryJournal | .createScriptedJournal _ | .shutDown _ | .setMode ..
  | .queueFailure .. | .createOutcome _ => true
  | _ => false

namespace Host

variable {R : Host → Host → Prop} {α : Type}

/-- The host behind a call does not depend on how the answer is worded. -/
theorem send_answering (w : Host) (access : Access) (c : StoreCall) (action : StoreAction α)
    (f : α → Answer) :
    (w.send access c (Request.answering action f)).2 = (w.send access c action).2 := by
  have hask : ∀ w : Host, (w.ask (Request.answering action f)).2 = (w.ask action).2 := by
    intro w
    unfold ask Request.answering
    rcases action w.store with e | ⟨a, s⟩ <;> rfl
  cases access with
  | direct => exact hask w
  | planned =>
      unfold send Host.call
      dsimp only
      split
      next => rfl
      next => exact hask _

/-- A relation between a host and the host behind it that holds of requests to the store
and of changes to what callers hold. -/
structure HoldsOfLookups (R : Host → Host → Prop) : Prop where
  refl : ∀ w, R w w
  trans : ∀ {w w' w''}, R w w' → R w' w'' → R w w''
  request : ∀ w access r, R w (w.request access r).2
  count : ∀ (w : Host) c n, c.concernsFencing = false → R w (w.count c n)
  gauge : ∀ w kind value, R w (w.gauge kind value)
  objects : ∀ (w : Host) handles readers caches now,
    R w { w with handles, readers, caches, now }

namespace HoldsOfLookups

variable (hR : HoldsOfLookups R)

include hR

/-- The relation holds of every call on the store that a request makes. -/
theorem call {action : StoreAction α} {f : α → Answer} {r : Request}
    (h : r.action = Request.answering action f) (w : Host) : R w (w.call r.call action).2 := by
  have hrequest := hR.request w .planned r
  unfold Host.request at hrequest
  rwa [h, send_answering] at hrequest

theorem bindKey (w : Host) (l : LedgerId) (key : MasterKey) :
    R w (w.call .bindKey (Store.bindKey l key)).2 :=
  hR.call (f := fun _ => .done) (r := .bindKey l key.bytes) rfl w

/-! ### Look-ups -/

theorem showCached (w : Host) (c : Nat) (kind : HandleKind) : R w (w.showCached c kind) := by
  cases kind <;> exact hR.gauge w _ _

theorem refuseKey (w : Host) (l : LedgerId) : R w (w.refuseKey l).2 := hR.count w _ _ rfl

theorem checkAccess (w : Host) (h : Nat) (presented : Bytes) :
    R w (w.checkAccess h presented).2 := by
  unfold Host.checkAccess
  dsimp only
  split
  next => exact hR.refl w
  next => exact hR.refuseKey w _

/-- The stored key is asked for, and a refusal is counted. -/
theorem checkStoredKey (w : Host) (l : LedgerId) (presented : Bytes) :
    R w (w.checkStoredKey l presented).2 := by
  have hcall := hR.call (f := fun key : MasterKey => .bytes key.bytes) (r := .key l) rfl w
  change R w (w.call .key (Store.key l)).2 at hcall
  unfold Host.checkStoredKey
  split
  next heq => rwa [heq] at hcall
  next heq => rwa [heq] at hcall
  next w₁ heq =>
    rw [heq] at hcall
    split
    next => exact hcall
    next => exact hR.trans hcall (hR.refuseKey w₁ l)

/-- The key is bound, and then the handle is made. -/
theorem createHandle (w : Host) (l : LedgerId) (key : MasterKey) (ack : Bool) :
    R w (w.createHandle l key ack).2 := by
  have hcall := hR.bindKey w l key
  unfold Host.createHandle
  split
  next heq => rwa [heq] at hcall
  next w₁ heq =>
    rw [heq] at hcall
    exact hR.trans hcall (hR.objects w₁ _ w₁.readers w₁.caches w₁.now)

/-- The store is asked whether it holds the ledger, and a reader is added if it does. -/
theorem createReader (w : Host) (l : LedgerId) : R w (w.createReader l).2 := by
  have hcall := hR.call (f := .flag) (r := .holds l) rfl w
  change R w (w.call .holds (Store.holds l)).2 at hcall
  unfold Host.createReader
  split
  next heq => rwa [heq] at hcall
  next heq => rwa [heq] at hcall
  next w₁ heq =>
    rw [heq] at hcall
    exact hR.trans hcall (hR.objects w₁ w₁.handles _ w₁.caches w₁.now)

theorem modifyCache (w : Host) (c : Nat) (f : Cache → Cache) : R w (w.modifyCache c f) :=
  hR.objects w w.handles w.readers _ w.now

/-- The key is checked or bound, and then a handle is made and cached. -/
theorem obtainHandle (w : Host) (c : Nat) (l : LedgerId) (presented : Bytes) :
    R w (w.obtainHandle c l presented).2 := by
  have hcheck := hR.checkStoredKey w l presented
  unfold Host.obtainHandle
  split
  next => exact hR.refl w
  next =>
    split
    next heq => rwa [heq] at hcheck
    next w₁ heq =>
      rw [heq] at hcheck
      have hcreate := hR.createHandle w₁ l ⟨presented⟩ (w₁.cacheAt c).config.ackBeforeSync
      split
      next hfailed =>
        rw [hfailed] at hcreate
        exact hR.trans hcheck hcreate
      next w₂ hmade =>
        rw [hmade] at hcreate
        exact hR.trans (hR.trans hcheck hcreate) (hR.modifyCache w₂ c _)

/-- A handle is looked for, and made if there is none and there may be one. -/
theorem findHandle (w : Host) (c : Nat) (l : LedgerId) (presented : Bytes) (replay : Bool) :
    R w (w.findHandle c l presented replay).2 := by
  have hobtain := hR.obtainHandle w c l presented
  unfold Host.findHandle
  split
  next => exact hR.refl w
  next =>
    split
    next => exact hR.refl w
    next =>
      split
      next heq => rwa [heq] at hobtain
      next w₁ heq =>
        rw [heq] at hobtain
        exact hR.trans hobtain (hR.showCached w₁ c .writable)

/-- A handle is found and its key compared. -/
theorem openWritable (w : Host) (c : Nat) (l : LedgerId) (presented : Bytes) (replay : Bool) :
    R w (w.openWritable c l presented replay).2 := by
  have hfind := hR.findHandle w c l presented replay
  unfold Host.openWritable
  split
  next w₁ heq =>
    rw [heq] at hfind
    exact hR.trans hfind (hR.count w₁ _ _ rfl)
  next h w₁ heq =>
    rw [heq] at hfind
    have hcheck := hR.checkAccess w₁ h presented
    split
    next w₂ hdenied =>
      rw [hdenied] at hcheck
      exact hR.trans hfind (hR.trans hcheck (hR.count w₂ _ _ rfl))
    next hgranted =>
      rw [hgranted] at hcheck
      exact hR.trans hfind hcheck

/-- A reader is looked for, and made if there is none. -/
theorem openReader (w : Host) (c : Nat) (l : LedgerId) : R w (w.openReader c l).2 := by
  have hcreate := hR.createReader w l
  unfold Host.openReader
  split
  next => exact hR.refl w
  next =>
    split
    next w₁ heq =>
      rw [heq] at hcreate
      exact hR.trans hcreate (hR.count w₁ _ _ rfl)
    next w₁ heq =>
      rw [heq] at hcreate
      exact hR.trans hcreate (hR.trans (hR.modifyCache w₁ c _) (hR.showCached _ c .readOnly))

/-! ### Caches that are told -/

theorem rememberDeletion (w : Host) (c : Nat) (l : LedgerId) :
    R w (w.rememberDeletion c l) := by
  unfold Host.rememberDeletion
  dsimp only
  split
  next => exact hR.objects w w.handles w.readers _ _
  next => exact hR.trans (hR.count w .evictions _ rfl) (hR.objects _ w.handles w.readers _ _)

theorem dropHandles (w : Host) (c : Nat) (l : LedgerId) : R w (w.dropHandles c l) :=
  hR.trans (hR.trans (hR.modifyCache w c _) (hR.showCached _ c .writable))
    (hR.showCached _ c .readOnly)

theorem tellCache (w : Host) (c : Nat) (l : LedgerId) (wasFenced : Bool) :
    R w (w.tellCache c l wasFenced) := by
  unfold Host.tellCache
  dsimp only
  split
  next => exact hR.trans (hR.rememberDeletion w c l) (hR.dropHandles _ c l)
  next => exact hR.dropHandles w c l

/-! ### Calls on handles -/

/-- A call that is no entry goes to the store as a request, if at all. -/
theorem use (w : Host) (handle : HandleRef) {call : HandleCall}
    (happend : ∀ entry, call = .append entry →
      ∀ w entry', R w (w.append .planned entry').2) :
    R w (w.use handle call).2 := by
  cases w.use_uses handle call with
  | stays host => exact host.symm ▸ hR.refl w
  | compares h presented _ _ host => exact host.symm ▸ hR.checkAccess w h presented
  | submits h entry _ hcall _ host => exact host.symm ▸ happend entry hcall w entry
  | sends r _ host => exact host.symm ▸ hR.request w .planned r

/-! ### Watchers and subscribers who are told -/

section Advances

variable (hreport : ∀ (w : Host) notice reacted, R w (w.emit (.advanced notice reacted)))

include hreport

/-- A watcher may wait again or read, which is one call, and then raises its event. -/
theorem tellWatcher (w : Host) (notice : Notice) : R w (w.tellWatcher notice) := by
  unfold Host.tellWatcher
  split
  next => exact hreport w notice .recorded
  next =>
    have hcall := hR.call (f := .flag)
      (r := .watch notice.ledger notice.confirmed notice.watcher) rfl w
    exact hR.trans hcall (hreport _ notice _)
  next =>
    have hcall := hR.call (f := .entry) (r := .confirmed notice.ledger) rfl w
    exact hR.trans hcall (hreport _ notice _)

theorem tellWatchers (notices : List Notice) (w : Host) :
    R w (notices.foldl Host.tellWatcher w) :=
  foldl_holds hR.refl hR.trans (hR.tellWatcher hreport) notices w

/-- The entry is sent, and then watchers are told. -/
theorem append (hsend : ∀ w access entry, R w (w.send access .append (Store.append entry)).2)
    (w : Host) (access : Access) (entry : Bytes) : R w (w.append access entry).2 := by
  have hsent := hsend w access entry
  unfold Host.append
  split
  next heq => rwa [heq] at hsent
  next id notices w₁ heq =>
    rw [heq] at hsent
    exact hR.trans hsent (hR.tellWatchers hreport notices w₁)

end Advances

section Deletions

variable (hreport : ∀ (w : Host) observer l wasFenced held reopened,
  R w (w.emit (.deleted observer l wasFenced held reopened)))

include hreport

/-- A cache is told, or an observer looks the ledger up and raises its event. -/
theorem tellSubscriber (w : Host) (l : LedgerId) (wasFenced : Bool) (who : Subscriber) :
    R w (Host.tellSubscriber l wasFenced w who) := by
  cases who with
  | cache c => exact hR.tellCache w c l wasFenced
  | observer o =>
      unfold Host.tellSubscriber tellObserver
      dsimp only
      split
      next => exact hR.refl w
      next =>
        split
        next => exact hreport w _ l wasFenced _ _
        next r _ =>
          exact hR.trans (hR.openWritable w r.cache l r.key r.replay)
            (hreport _ _ l wasFenced _ _)

theorem tellSubscribers (l : LedgerId) (wasFenced : Bool) (subscribers : List Subscriber)
    (w : Host) : R w (subscribers.foldl (Host.tellSubscriber l wasFenced) w) :=
  foldl_holds hR.refl hR.trans (fun w who => hR.tellSubscriber hreport w l wasFenced who)
    subscribers w

/-- The removal is sent, and then subscribers are told. -/
theorem remove (hsend : ∀ w access l, R w (w.send access .remove (Store.remove w.isPresent l)).2)
    (w : Host) (access : Access) (l : LedgerId) : R w (w.remove access l).2 := by
  have hsent := hsend w access l
  unfold Host.remove
  split
  next heq => rwa [heq] at hsent
  next wasFenced subscribers w₁ heq =>
    rw [heq] at hsent
    exact hR.trans hsent (hR.tellSubscribers hreport l wasFenced subscribers w₁)

end Deletions

/-- Only some operations append or delete, and only of these it is asked that the relation
holds of appends and deletions. -/
theorem perform (w : Host) {op : Op}
    (happend : (∃ access entry, op = .append access entry) ∨
        (∃ handle entry, op = .use handle (.append entry)) →
      ∀ w access entry, R w (w.append access entry).2)
    (hremove : (∃ access l, op = .remove access l) → ∀ w access l, R w (w.remove access l).2)
    (hop : op.asksStore = true) : R w (w.perform op).2 := by
  cases op with
  | request access r => exact (answer_host _ _ _).symm ▸ hR.request w access r
  | append access entry =>
      exact (answer_host _ _ _).symm ▸ happend (Or.inl ⟨_, _, rfl⟩) w access entry
  | remove access l => exact (answer_host _ _ _).symm ▸ hremove ⟨_, _, rfl⟩ w access l
  | openWritable c l presented replay =>
      refine whenHeld_host (hR.refl w) ?_
      exact (answer_host _ _ _).symm ▸ hR.openWritable w c l presented replay
  | openReader c l =>
      refine whenHeld_host (hR.refl w) ?_
      exact (answer_host _ _ _).symm ▸ hR.openReader w c l
  | tellCache c l wasFenced => exact whenHeld_host (hR.refl w) (hR.tellCache w c l wasFenced)
  | createHandle l key ack => exact (answer_host _ _ _).symm ▸ hR.createHandle w l ⟨key⟩ ack
  | createReader l => exact (answer_host _ _ _).symm ▸ hR.createReader w l
  | use handle call =>
      refine whenHeld_host (hR.refl w) ?_
      rw [answer_host]
      refine hR.use w handle ?_
      rintro entry rfl w entry'
      exact happend (Or.inr ⟨_, _, rfl⟩) w .planned entry'
  | _ => cases hop

end HoldsOfLookups

/-- A relation that also holds of appends and deletions, with all who are told. -/
structure HoldsOfCalls (R : Host → Host → Prop) : Prop extends HoldsOfLookups R where
  append : ∀ w access entry, R w (w.append access entry).2
  remove : ∀ w access l, R w (w.remove access l).2

theorem HoldsOfCalls.perform (hR : HoldsOfCalls R) (w : Host) {op : Op}
    (hop : op.asksStore = true) : R w (w.perform op).2 :=
  hR.toHoldsOfLookups.perform w (fun _ => hR.append) (fun _ => hR.remove) hop

/-! ### Fencing -/

/-- A relation that holds of submissions and of releases, and when journals and outcomes
are made or told what to do next, holds of every operation about them, if it holds when a
journal is let go. -/
theorem HoldsOfSubmissions.perform (hR : HoldsOfSubmissions R) (hreleases : HoldsOfReleases R)
    (hsetUp : ∀ w op, op.setsUp = true → R w (w.perform op).2) (w : Host) {op : Op}
    (hgone : ∀ id, op = .releaseJournal id → R w (w.releaseJournal id))
    (hop : op.concernsFencing = true) : R w (w.perform op).2 := by
  cases op with
  | fence handle path t =>
      refine whenHeld_host (hR.refl w) ?_
      rw [answer_host]
      exact hR.fenceThrough (hR.submit path) w t handle
  | log path t entry ack label =>
      refine whenHeld_host (hR.refl w) ?_
      rw [answer_host]
      exact hR.submit path w t entry ack _
  | releaseJournal id => exact whenHeld_host (hR.refl w) (hgone id rfl)
  | completeNext id code => exact hreleases.completeNext w id code
  | completeAll id code => exact hreleases.completeUpTo id code _ w
  | dropNext id => exact hreleases.dropNext w id
  | createMemoryJournal | createScriptedJournal | shutDown | setMode | queueFailure
  | createOutcome => exact hsetUp w _ rfl
  | _ => cases hop

/-- What holds of all that fencing does, and of new outcomes, holds of every operation on
fencing. -/
theorem HoldsOfFencing.perform (hR : HoldsOfFencing R)
    (houtcomes : ∀ (w : Host) outcomes, R w { w with outcomes }) (w : Host) {op : Op}
    (hop : op.concernsFencing = true) : R w (w.perform op).2 := by
  refine hR.submissions.perform hR.releases (fun w op hsets => ?_) w
    (fun id _ => hR.releaseJournal w id) hop
  cases op with
  | createOutcome => exact houtcomes w _
  | createMemoryJournal | createScriptedJournal | shutDown | setMode | queueFailure =>
      exact hR.journals w _
  | _ => cases hsets

end Host

end FencedLedger
