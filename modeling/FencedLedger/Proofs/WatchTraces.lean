import FencedLedger.Proofs.WatchSteps

/-!
# What calls mean to those who wait

Each call of a host leaves a trace: the events that matter to those who wait, and
the notices of which it told watchers. A call is a run of steps with the events of
its trace, whatever the watchers do when they are told, and the events of the host
say that just those notices were told.
-/

namespace FencedLedger

open WatchEvent

namespace Watching

/-- The state behind a call, during which everybody was told. -/
def follow (s : Watching) (store : Store) (trace : List WatchEvent × List Notice) : Watching where
  store := store
  log := s.log ++ trace.1
  pending := s.pending
  told := s.told ++ trace.2.map (Issue.mk s.log.length)

end Watching

open Watching

/-- What a request that was answered means to those who wait. -/
def Request.watchEvents (r : Request) (answer : Except StoreError Answer) : List WatchEvent :=
  match r, answer with
  | .watch l known who, .ok (.flag true) => [.waits l known who]
  | .unwatch l who, .ok _ => [.cancels l who]
  | _, _ => []

theorem Request.watchEvents_of_not_concerns {r : Request} (h : r.concernsWatchers = false)
    (answer : Except StoreError Answer) : r.watchEvents answer = [] := by
  cases r with
  | watch | unwatch => cases h
  | _ => rfl

theorem Request.watchEvents_error (r : Request) (e : StoreError) :
    r.watchEvents (.error e) = [] := by
  cases r <;> rfl

namespace Host

variable {w w' : Host}

/-! ### Traces of calls -/

/-- Whether a watcher waits again when it is told. -/
def rearmed (w : Host) (notice : Notice) : List WatchEvent :=
  match notice.watcher.reaction with
  | .rearm =>
      match (w.call .watch (Store.watch notice.ledger notice.confirmed notice.watcher)).1 with
      | .ok true => [.waits notice.ledger notice.confirmed notice.watcher]
      | _ => []
  | _ => []

/-- Who waits again while watchers are told, one after the other. -/
def rearmedTelling : Host → List Notice → List WatchEvent
  | _, [] => []
  | w, notice :: notices => w.rearmed notice ++ rearmedTelling (w.tellWatcher notice) notices

/-- What storing an entry means to those who wait, and the notices that are told. -/
def appendTrace (w : Host) (access : Access) (entry : Bytes) : List WatchEvent × List Notice :=
  match Entry.readHeader entry, w.send access .append (Store.append entry) with
  | .ok header, (.ok (_, notices), w') =>
      (advance header.ledger w.store w'.store ++ rearmedTelling w' notices, notices)
  | _, _ => ([], [])

/-- What a request means to those who wait. -/
def requestTrace (w : Host) (access : Access) (r : Request) : List WatchEvent × List Notice :=
  (r.watchEvents (w.request access r).1, [])

/-- What a call on a handle means to those who wait. -/
def useTrace (w : Host) (handle : HandleRef) (call : HandleCall) :
    List WatchEvent × List Notice :=
  match handle, call with
  | .writable h, .append entry =>
      match Entry.readLedger entry with
      | .error _ => ([], [])
      | .ok encoded =>
          if encoded ≠ (w.handleAt h).ledger then ([], []) else w.appendTrace .planned entry
  | handle, call =>
      match call.request? (w.ledgerOf handle) with
      | some r => w.requestTrace .planned r
      | none => ([], [])

/-- What a deletion means to those who wait. -/
def removeTrace (w : Host) (access : Access) (l : LedgerId) : List WatchEvent × List Notice :=
  match w.send access .remove (Store.remove w.isPresent l) with
  | (.error _, _) => ([], [])
  | (.ok _, _) => ([.removes l], [])

/-- What an operation means to those who wait, and the notices that are told. -/
def watchTrace (w : Host) : Op → List WatchEvent × List Notice
  | .request access r => w.requestTrace access r
  | .append access entry => w.appendTrace access entry
  | .use handle call => if w.knowsHandle handle then w.useTrace handle call else ([], [])
  | .remove access l => w.removeTrace access l
  | _ => ([], [])

/-! ### Calls as runs of steps -/

/-- A call takes reachable states to reachable states, with its trace, and told
watchers of the notices. -/
structure Follows (w w' : Host) (trace : List WatchEvent × List Notice) : Prop where
  reachable : ∀ s, Reachable s → s.store = w.store → Reachable (s.follow w'.store trace)
  notified : w'.notified = w.notified ++ trace.2

theorem follows_of_undisturbed (h : w.store.Undisturbed w'.store)
    (hnotified : w'.notified = w.notified) : Follows w w' ([], []) where
  reachable s hs hstore := by
    have hstep := hs.step (.elsewhere (hstore ▸ h))
    simpa [follow] using hstep
  notified := hnotified.trans (List.append_nil _).symm

theorem Idle.follows (h : Idle w w') : Follows w w' ([], []) :=
  follows_of_undisturbed (h.store ▸ .refl w.store) h.background.notified

/-- A request waits, waits no more, or leaves no trace. -/
theorem request_follows (w : Host) (access : Access) (r : Request) :
    Follows w (w.request access r).2 (w.requestTrace access r) := by
  unfold requestTrace request
  cases hsend : w.send access r.call r.action with
  | mk answer w' =>
      cases answer with
      | error e =>
          rw [Request.watchEvents_error]
          exact (send_error hsend).follows
      | ok a =>
          obtain ⟨hact, honly⟩ := send_ok hsend
          have hnotified := honly.background.notified
          cases hr : r.concernsWatchers with
          | false =>
              rw [Request.watchEvents_of_not_concerns hr]
              exact follows_of_undisturbed (Request.undisturbed hr hact) hnotified
          | true =>
              -- the step that the store takes is the event that is traced
              refine ⟨fun s hs hstore => ?_, hnotified.trans (List.append_nil _).symm⟩
              rw [← hstore] at hact
              cases r with
              | watch l known who =>
                  obtain ⟨waits, hwatch, rfl⟩ :=
                    Store.answering_ok (by simpa only [Request.action] using hact)
                  have hstep := hs.step (.watch hwatch)
                  cases waits <;> simpa [follow, Request.watchEvents] using hstep
              | unwatch l who =>
                  obtain ⟨_, hunwatch, rfl⟩ :=
                    Store.answering_ok (by simpa only [Request.action] using hact)
                  have hstep := hs.step (.unwatch hunwatch)
                  simpa [follow, Request.watchEvents] using hstep
              | _ => cases hr

/-- A watcher that is told has that as its event, whatever it does then. -/
theorem tellWatcher_notified (w : Host) (notice : Notice) :
    (w.tellWatcher notice).notified = w.notified ++ [notice] := by
  unfold tellWatcher
  cases notice.watcher.reaction with
  | record => exact emit_notified w _
  | rearm | read =>
      refine (emit_notified _ _).trans ?_
      exact congrArg (· ++ [notice]) (call_background w _ _).notified

theorem tellWatchers_notified (w : Host) (notices : List Notice) :
    (notices.foldl tellWatcher w).notified = w.notified ++ notices := by
  induction notices generalizing w with
  | nil => exact (List.append_nil _).symm
  | cons notice notices ih =>
      rw [List.foldl_cons, ih, tellWatcher_notified, List.append_assoc]
      rfl

/-- A watcher that is told may wait again. -/
theorem tellWatcher_reachable {s : Watching} (hs : Reachable s) (hstore : s.store = w.store)
    (notice : Notice) :
    Reachable { s with
      store := (w.tellWatcher notice).store
      log := s.log ++ w.rearmed notice } := by
  have hquiet : ∀ {store : Store}, store = w.store →
      Reachable { s with store, log := s.log ++ [] } := by
    rintro store rfl
    rw [List.append_nil, ← hstore]
    exact hs
  unfold tellWatcher rearmed
  cases notice.watcher.reaction with
  | record => exact hquiet rfl
  | rearm =>
      dsimp only
      cases hcall : w.call .watch (Store.watch notice.ledger notice.confirmed notice.watcher) with
      | mk answer w' =>
          cases answer with
          | error e => exact hquiet (call_error hcall).store
          | ok waits =>
              obtain ⟨hact, -⟩ := call_ok hcall
              rw [← hstore] at hact
              have hstep := hs.step (.watch hact)
              cases waits <;> simpa [emit] using hstep
  | read =>
      dsimp only
      cases hcall : w.call .confirmed (Store.confirmed notice.ledger) with
      | mk answer w' =>
          cases answer with
          | error e => exact hquiet (call_error hcall).store
          | ok c => exact hquiet (Store.look_eq (call_ok hcall).1)

/-- Telling those who are to be told leaves none of their notices pending. -/
theorem telling_reachable {notices : List Notice} {place : Nat} {s : Watching}
    (hs : Reachable s) (hstore : s.store = w.store) {before : List Issue}
    (hpending : s.pending = before ++ notices.map (Issue.mk place)) :
    Reachable {
      store := (notices.foldl tellWatcher w).store
      log := s.log ++ rearmedTelling w notices
      pending := before
      told := s.told ++ notices.map (Issue.mk place) } := by
  induction notices generalizing w s with
  | nil =>
      obtain ⟨store, log, pending, told⟩ := s
      simp only [List.map_nil, List.append_nil] at hpending hstore
      subst hpending hstore
      simpa [rearmedTelling] using hs
  | cons notice notices ih =>
      -- the notice moves to the told ones, and only then does its watcher react
      have htold := hs.step (.tell hpending)
      have hreacted := tellWatcher_reachable htold hstore notice
      have hrest := ih hreacted rfl rfl
      simpa [rearmedTelling] using hrest

/-- An entry that confirms more is an advance, followed by its notices. -/
theorem append_follows (w : Host) (access : Access) (entry : Bytes) :
    Follows w (w.append access entry).2 (w.appendTrace access entry) := by
  unfold append appendTrace
  cases hsend : w.send access .append (Store.append entry) with
  | mk answer w' =>
      cases answer with
      | error e =>
          cases Entry.readHeader entry <;> exact (send_error hsend).follows
      | ok stored =>
          obtain ⟨hact, honly⟩ := send_ok hsend
          obtain ⟨id, notices⟩ := stored
          obtain ⟨header, hheader, -⟩ := Store.append_cases hact
          have hnotified := tellWatchers_notified w' notices
          rw [honly.background.notified] at hnotified
          rw [hheader]
          refine ⟨fun s hs hstore => ?_, hnotified⟩
          rw [← hstore] at hact
          have hstep := hs.step (.append hheader hact)
          have htold := telling_reachable hstep rfl rfl
          rw [hstore] at htold
          simpa [follow] using htold

/-- A handle passes a call on as a request, with the same trace. -/
theorem forward_follows (w : Host) (r : Request) :
    Follows w (w.forward r).2 (w.requestTrace .planned r) := by
  rw [forward_host]
  exact request_follows w .planned r

/-- What a handle refuses leaves no trace, and the rest that of the entry. -/
theorem appendThrough_follows (w : Host) (h : Nat) (entry : Bytes) :
    Follows w (w.appendThrough (w.handleAt h).ledger entry).2
      (w.useTrace (.writable h) (.append entry)) := by
  have hfollows := append_follows w .planned entry
  unfold appendThrough useTrace
  dsimp only
  cases Entry.readLedger entry with
  | error short => exact (Idle.refl w).follows
  | ok encoded =>
      dsimp only
      by_cases hother : encoded ≠ (w.handleAt h).ledger
      · rw [if_pos hother, if_pos hother]
        exact (Idle.refl w).follows
      · rw [if_neg hother, if_neg hother]
        split
        next happend => rwa [happend] at hfollows
        next happend => rwa [happend] at hfollows

/-- A reader refuses only calls that watchers do not notice. -/
theorem use_follows (w : Host) (handle : HandleRef) (call : HandleCall) :
    Follows w (w.use handle call).2 (w.useTrace handle call) := by
  cases handle with
  | writable h =>
      cases call with
      | access presented =>
          rw [use_access_host]
          exact (checkAccess_idle w h presented).follows
      | append entry => exact appendThrough_follows w h entry
      | _ => exact forward_follows w _
  | reader r =>
      cases call with
      | access | fence | append | noteConfirmed => exact (Idle.refl w).follows
      | _ => exact forward_follows w _

/-- A removal that succeeds leaves its trace, whatever its subscribers do afterwards. -/
theorem remove_follows (w : Host) (access : Access) (l : LedgerId) :
    Follows w (w.remove access l).2 (w.removeTrace access l) := by
  unfold removeTrace remove
  cases hsend : w.send access .remove (Store.remove w.isPresent l) with
  | mk answer w' =>
      cases answer with
      | error e => exact (send_error hsend).follows
      | ok removed =>
          obtain ⟨hact, honly⟩ := send_ok hsend
          have htells := tellSubscribers_tells w' l removed.1 removed.2
          have hnotified := (honly.background.trans htells.background).notified
          refine ⟨fun s hs hstore => ?_, hnotified.trans (List.append_nil _).symm⟩
          rw [← hstore] at hact
          have hstep := hs.step (.remove hact)
          simpa [follow] using hstep.step (.elsewhere htells.grows.undisturbed)

/-- All other operations leave watchers alone. -/
theorem Effect.undisturbed {op : Op} {removed : Option LedgerId} (h : Effect op w w' removed)
    (hcalls : op.callsStore = false) (hremove : ∀ access l, op ≠ .remove access l) :
    w.store.Undisturbed w'.store := by
  cases removed with
  | none =>
      rcases h.fences_or_grows hcalls with ⟨-, hfences⟩ | ⟨hgrows, -⟩
      · exact hfences.undisturbed
      · exact hgrows.undisturbed
  | some l =>
      cases h with
      | removes hop _ _ _ _ => exact (hremove _ _ hop).elim

/-- Every operation is a run of steps with the events of its trace. -/
theorem perform_follows (w : Host) (op : Op) : Follows w (w.perform op).2 (w.watchTrace op) := by
  cases op with
  | request access r =>
      unfold perform
      rw [answer_host]
      exact request_follows w access r
  | append access entry =>
      unfold perform
      rw [answer_host]
      exact append_follows w access entry
  | remove access l =>
      unfold perform
      rw [answer_host]
      exact remove_follows w access l
  | use handle call =>
      unfold perform whenHeld watchTrace
      dsimp only
      split
      next =>
        rw [answer_host]
        exact use_follows w handle call
      next => exact (Idle.refl w).follows
  | _ =>
      exact follows_of_undisturbed ((perform_effect w _).undisturbed rfl (by simp))
        ((perform_effect w _).notified rfl)

end Host

end FencedLedger
