import FencedLedger.Proofs.StoreAsks
import FencedLedger.Proofs.StoreCalls

/-!
# What leaves fenced bits alone

Only a fence call sets the fenced bit of a ledger, and only the removal of the ledger
clears it. Every other request leaves the bits of all ledgers as they were, and so do
entries, the making of handles and readers, deletions that caches are told of, and
whatever becomes of the appends of journals. None of these is counted as a durable fence
call either. A journal may fence on the way of an entry that it is handed, so
submissions are not among them.
-/

namespace FencedLedger

/-- Whether an operation may set a fenced bit, or remove a ledger and clear it. -/
def Op.mayTouchBits : Op → Bool
  | .request _ (.fence _) | .use _ .fence | .fence .. | .log .. | .remove .. => true
  | _ => false

namespace Store

variable {s s' s'' : Store} {l : LedgerId}

/-- Every ledger is as fenced as it was. -/
def KeepsBits (s s' : Store) : Prop := ∀ l, s'.holdsFenced l = s.holdsFenced l

theorem keepsBits_of_ledgers (h : s'.ledgers = s.ledgers) : KeepsBits s s' := fun l => by
  rw [holdsFenced, h, holdsFenced]

theorem KeepsBits.refl (s : Store) : KeepsBits s s := fun _ => rfl

theorem KeepsBits.trans (h : KeepsBits s s') (h' : KeepsBits s' s'') : KeepsBits s s'' :=
  fun l => (h' l).trans (h l)

/-- A ledger may be changed in every other respect. -/
theorem keepsBits_insert {x y : Ledger} (hx : s.ledgers.get? l = some x)
    (hfenced : y.fenced = x.fenced) :
    KeepsBits s { s with ledgers := s.ledgers.insert l y } := by
  intro l'
  rw [holdsFenced_insert]
  split
  next hl =>
    subst hl
    simp [holdsFenced, hx, hfenced]
  next => rfl

/-- An action that keeps the bit of its ledger keeps all bits. -/
theorem change_keepsBits {α : Type} {f : Ledger → α × Ledger} {a : α}
    (hfenced : ∀ x, (f x).2.fenced = x.fenced) (h : change l f s = .ok (a, s')) :
    KeepsBits s s' := by
  unfold change at h
  split at h
  next => cases h
  next x hx =>
    cases h
    exact keepsBits_insert hx (hfenced x)

theorem watch_keepsBits {known : EntryId} {who : Watcher} {b : Bool}
    (h : watch l known who s = .ok (b, s')) : KeepsBits s s' := by
  refine change_keepsBits (fun x => ?_) h
  unfold Ledger.watch
  split <;> rfl

/-- Waiting no more concerns no bit, also of a ledger that is not there. -/
theorem unwatch_keepsBits {who : Watcher} (h : unwatch l who s = .ok ((), s')) :
    KeepsBits s s' := by
  unfold unwatch at h
  split at h
  next =>
    cases h
    exact .refl s
  next x hx =>
    cases h
    exact keepsBits_insert hx rfl

/-- An entry that is taken changes the ledger that it goes to, and not its bit. -/
theorem append_keepsBits {entry : Bytes} {r : EntryId × List Notice}
    (h : append entry s = .ok (r, s')) : KeepsBits s s' := by
  obtain ⟨header, x, -, -, hx, -, -, rfl⟩ := append_spec h
  exact keepsBits_insert hx (ledger_append_key x header.entry entry).2

/-- A request that fences nothing leaves the bits alone. A ledger that it creates is not
fenced. -/
theorem request_keepsBits {r : Request} {a : Answer} (hr : ∀ l, r ≠ .fence l)
    (h : r.action s = .ok (a, s')) : KeepsBits s s' := by
  cases request_change h with
  | none r => exact .refl s
  | bindKey hact =>
      rcases bindKey_cases hact with hcreates | ⟨hsame, -⟩
      · exact hcreates.fenced
      · exact hsame ▸ .refl s
  | @fence l _ _ _ => exact absurd rfl (hr l)
  | noteConfirmed hact => exact change_keepsBits (fun _ => rfl) hact
  | watch hact => exact watch_keepsBits hact
  | unwatch hact => exact unwatch_keepsBits hact

/-- Fencing sets one bit, and answers whether it was clear. -/
theorem fence_bits {news : Bool} (h : fence l s = .ok (news, s')) (l' : LedgerId) :
    s'.holdsFenced l' = if l = l' then true else s.holdsFenced l' := by
  split
  next hl =>
    subst hl
    exact (fence_spec h).2.2
  next hne =>
    unfold fence change at h
    split at h
    next => cases h
    next x hx =>
      cases h
      rw [holdsFenced_insert, if_neg hne]

end Store

namespace Host

variable {w w' w'' : Host} {op : Op}

/-- Every ledger in the store is as fenced as it was. -/
abbrev KeepsBits (w w' : Host) : Prop := w.store.KeepsBits w'.store

theorem keepsBits_of_store (h : w'.store = w.store) : KeepsBits w w' :=
  Store.keepsBits_of_ledgers (congrArg Store.ledgers h)

/-! ### Calls on the store -/

section Store

variable {α : Type} {action : StoreAction α}

theorem send_keepsBits
    (haction : ∀ s a s', action s = .ok (a, s') → Store.KeepsBits s s') (w : Host)
    (access : Access) (c : StoreCall) : KeepsBits w (w.send access c action).2 := by
  rcases hsend : w.send access c action with ⟨e | a, w'⟩
  · exact keepsBits_of_store (send_error hsend).store
  · exact haction _ _ _ (send_ok hsend).1

end Store

theorem request_keepsBits (w : Host) (access : Access) {r : Request}
    (hr : ∀ l, r ≠ .fence l) : KeepsBits w (w.request access r).2 :=
  send_keepsBits (fun _ _ _ => Store.request_keepsBits hr) w access r.call

/-- A watcher may read or wait again, which concerns no bit. -/
theorem tellWatcher_keepsBits (w : Host) (notice : Notice) :
    KeepsBits w (w.tellWatcher notice) := by
  rcases w.tellWatcher_store notice with hsame | ⟨waits, hwatch⟩
  · exact keepsBits_of_store hsame
  · exact Store.watch_keepsBits hwatch

theorem tellWatchers_keepsBits (notices : List Notice) (w : Host) :
    KeepsBits w (notices.foldl tellWatcher w) := by
  induction notices generalizing w with
  | nil => exact .refl w.store
  | cons notice notices ih => exact (tellWatcher_keepsBits w notice).trans (ih _)

/-- An entry and all the notices of it concern no bit. -/
theorem append_keepsBits (w : Host) (access : Access) (entry : Bytes) :
    KeepsBits w (w.append access entry).2 := by
  have hsent : KeepsBits w (w.send access .append (Store.append entry)).2 :=
    send_keepsBits (fun _ _ _ => Store.append_keepsBits) w access .append
  unfold append
  split
  next heq => rwa [heq] at hsent
  next heq =>
    rw [heq] at hsent
    exact hsent.trans (tellWatchers_keepsBits _ _)

/-! ### Counts of durable calls -/

/-- No durable fence call was counted. -/
def KeepsAttempts (w w' : Host) : Prop :=
  ∀ path, w'.metrics.count (.fenceAttempts path) = w.metrics.count (.fenceAttempts path)

theorem keepsAttempts_of_metrics (h : w'.metrics = w.metrics) : KeepsAttempts w w' :=
  fun _ => by rw [h]

theorem KeepsAttempts.trans (h : KeepsAttempts w w') (h' : KeepsAttempts w' w'') :
    KeepsAttempts w w'' :=
  fun path => (h' path).trans (h path)

theorem Works.keepsAttempts {kinds : Event → Bool} (h : Works kinds w w') :
    KeepsAttempts w w' :=
  fun _ => h.counts _ rfl

theorem count_keepsAttempts {c : Counter} (hc : ∀ path, c ≠ .fenceAttempts path) (w : Host)
    (n : Nat) : KeepsAttempts w (w.count c n) := by
  intro path
  change (w.metrics.add c n).count _ = _
  rw [Metrics.count_add, if_neg (hc path), Nat.add_zero]

/-! ### Appends of journals -/

/-- The store is as it was, and no durable fence call was counted. -/
structure Aside (w w' : Host) : Prop where
  store : w'.store = w.store
  attempts : KeepsAttempts w w'

theorem aside_of_eq (hstore : w'.store = w.store) (hmetrics : w'.metrics = w.metrics) :
    Aside w w' :=
  ⟨hstore, keepsAttempts_of_metrics hmetrics⟩

theorem Aside.refl (w : Host) : Aside w w := aside_of_eq rfl rfl

theorem Aside.trans (h : Aside w w') (h' : Aside w' w'') : Aside w w'' :=
  ⟨h'.store.trans h.store, h.attempts.trans h'.attempts⟩

theorem count_aside {c : Counter} (hc : ∀ path, c ≠ .fenceAttempts path) (w : Host) (n : Nat) :
    Aside w (w.count c n) :=
  ⟨rfl, count_keepsAttempts hc w n⟩

/-- A mark on a handle is no bit of the store. -/
theorem noteMarker_aside (w : Host) (h : Nat) (code : ReturnCode) :
    Aside w (w.noteMarker h code) := by
  unfold noteMarker markPersisted
  split
  next =>
    split
    next => exact aside_of_eq rfl rfl
    next =>
      have hmarked : Aside w (w.modifyHandle h fun handle => { handle with persisted := true }) :=
        aside_of_eq rfl rfl
      exact hmarked.trans (count_aside (c := .fencePersisted) nofun _ 1)
  next => exact count_aside (c := .fenceLogFailures .code) nofun w 1

theorem complete_aside (w : Host) (callback : Callback) (report : Completion) :
    Aside w (w.complete callback report) := by
  cases callback with
  | fence h o => exact (noteMarker_aside w h report.code).trans (aside_of_eq rfl rfl)
  | report label => exact aside_of_eq rfl rfl

theorem abandon_aside (w : Host) (callback : Callback) : Aside w (w.abandon callback) := by
  cases callback <;> exact aside_of_eq rfl rfl

/-- A refusal is answered for with a flag, a count and an outcome. -/
theorem refuseMarker_aside (w : Host) (t : Thread) (o : Nat) (cause : JournalError) :
    Aside w (w.refuseMarker t o cause) := by
  unfold refuseMarker
  split
  next =>
    have hraised : Aside w { w with interrupts := w.interrupts.raise t } := aside_of_eq rfl rfl
    have hcounted := hraised.trans (count_aside (c := .fenceLogFailures .interrupted) nofun _ 1)
    exact hcounted.trans (aside_of_eq rfl rfl)
  next =>
    have hcounted := count_aside (c := .fenceLogFailures .journal) nofun w 1
    exact hcounted.trans (aside_of_eq rfl rfl)

theorem aside_holdsOfEnds : HoldsOfEnds Aside where
  refl := .refl
  trans := .trans
  journals _ _ := aside_of_eq rfl rfl
  interrupts _ _ := aside_of_eq rfl rfl
  complete := complete_aside
  abandon := abandon_aside

/-! ### Operations -/

/-- A call on a handle goes on with a fence request only if it is one. -/
theorem sent?_ne_fence (hop : op.mayTouchBits = false) {r : Request} (hsent : w.sent? op = some r)
    (l : LedgerId) : r ≠ .fence l := by
  rintro rfl
  cases op with
  | request access r =>
      cases hsent
      cases hop
  | use handle call =>
      unfold sent? at hsent
      dsimp only at hsent
      split at hsent
      next =>
        have hrequest : ∃ l', call.request? l' = some (.fence l) := by
          cases handle with
          | writable h => exact ⟨_, hsent⟩
          | reader r =>
              unfold forwarded? at hsent
              dsimp only at hsent
              split at hsent
              next => cases hsent
              next => exact ⟨_, hsent⟩
        obtain ⟨l', hrequest⟩ := hrequest
        cases call <;> cases hrequest
        cases hop
      next => cases hsent
  | _ => cases hsent

/-- What an operation does that neither calls on the store nor is about fencing. A ledger
that it creates is not fenced. -/
theorem Effect.keepsBits (h : Effect op w w' none) (hcalls : op.callsStore = false)
    (hfencing : op.concernsFencing = false) : KeepsBits w w' := by
  rcases h.fences_or_grows hcalls with ⟨hop, -⟩ | ⟨-, hbits⟩
  · cases hfencing.symm.trans hop
  · exact hbits

/-- Operations about journals and outcomes leave the store aside, unless they submit
something. -/
theorem perform_aside (w : Host) (hfencing : op.concernsFencing = true)
    (hop : op.mayTouchBits = false) : Aside w (w.perform op).2 := by
  cases op with
  | fence | log => cases hop
  | releaseJournal id =>
      exact whenHeld_host (P := Aside w) (.refl w) (aside_holdsOfEnds.releaseJournal w id)
  | completeNext id code => exact aside_holdsOfEnds.completeNext w id code
  | completeAll id code => exact aside_holdsOfEnds.releases.completeUpTo id code _ w
  | dropNext id => exact aside_holdsOfEnds.dropNext w id
  | createMemoryJournal | createScriptedJournal | shutDown | setMode | queueFailure
  | createOutcome => exact aside_of_eq rfl rfl
  | _ => cases hfencing

/-- Whatever may not touch a bit keeps all of them, also by way of the store. -/
theorem perform_keepsBits (w : Host) (hop : op.mayTouchBits = false) :
    KeepsBits w (w.perform op).2 := by
  cases hcalls : op.callsStore with
  | true =>
      cases w.perform_consults hcalls with
      | sends access r hsent host =>
          rw [host]
          exact request_keepsBits w access (sent?_ne_fence hop hsent)
      | submits access entry hsubmitted hsent host =>
          rw [host]
          exact append_keepsBits w access entry
      | stays hsent intact =>
          refine keepsBits_of_store ?_
          rw [intact.same]
  | false =>
      cases hfencing : op.concernsFencing with
      | true => exact keepsBits_of_store (perform_aside w hfencing hop).store
      | false =>
          have hkept : w.removed? op = none := by
            cases op with
            | remove => cases hop
            | _ => rfl
          have heffect := perform_effect w op
          rw [hkept] at heffect
          exact heffect.keepsBits hcalls hfencing

/-- Counting durable calls is left to those who make them. -/
theorem perform_keepsAttempts (w : Host)
    (hop : op.concernsFencing = false ∨ op.mayTouchBits = false) :
    KeepsAttempts w (w.perform op).2 := by
  cases hfencing : op.concernsFencing with
  | false => exact (perform_works w hfencing).keepsAttempts
  | true =>
      have hquiet := hop.resolve_left (by simp [hfencing])
      exact (perform_aside w hfencing hquiet).attempts

end Host

end FencedLedger
