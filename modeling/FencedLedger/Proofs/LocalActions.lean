import FencedLedger.Proofs.Effects
import FencedLedger.Proofs.EntryCodec

/-!
# Actions on one ledger

Every action on the store but a removal is decided by one ledger, or by there being
none, and changes no other. An entry goes to the ledger in its header, which is the one
that a handle reads off it, whatever the bytes. So hosts that agree on a ledger answer
alike what is asked about it, and what is asked about other ledgers makes no difference.
Fault plans and listeners do make a difference, as they know all ledgers.
-/

namespace FencedLedger

/-- The ledger that a request is about. -/
def Request.ledger : Request → LedgerId
  | .bindKey l _ | .key l | .holds l | .entry l _ | .fence l | .isFenced l | .noteConfirmed l _
  | .notedConfirmed l | .confirmed l | .watch l _ _ | .unwatch l _ | .entryIds l => l

namespace HandleCall

/-- The ledger whose entries a call lists. -/
def listed? : HandleCall → Option LedgerId
  | .entryIds other => some other
  | _ => none

/-- A call goes on to the ledger of its handle, unless it lists the entries of another. -/
theorem ledger_of_request? {call : HandleCall} {l : LedgerId} {r : Request}
    (hlisted : ∀ other, call.listed? = some other → other = l) (hr : call.request? l = some r) :
    r.ledger = l := by
  cases call with
  | access | append => cases hr
  | entryIds other =>
      cases hr
      exact hlisted other rfl
  | _ =>
      cases hr
      rfl

end HandleCall

namespace Store

variable {α : Type} {l l' : LedgerId} {s s' t : Store}

/-- The action that is decided by a ledger and may change it. -/
def onLedger (l : LedgerId) (f : Option Ledger → Except StoreError (α × Option Ledger)) :
    StoreAction α := fun s =>
  match f (s.ledgers.get? l) with
  | .error e => .error e
  | .ok (a, none) => .ok (a, s)
  | .ok (a, some x) => .ok (a, { s with ledgers := s.ledgers.insert l x })

/-- An action is about one ledger. -/
def LocalTo (l : LedgerId) (action : StoreAction α) : Prop := ∃ f, action = onLedger l f

/-- It leaves the subscriptions and the other ledgers as they are. -/
theorem LocalTo.others {action : StoreAction α} {a : α} (h : LocalTo l action)
    (hact : action s = .ok (a, s')) :
    s'.subscribers = s.subscribers ∧ ∀ l', l ≠ l' → s'.ledgers.get? l' = s.ledgers.get? l' := by
  obtain ⟨f, rfl⟩ := h
  unfold onLedger at hact
  split at hact
  next => cases hact
  next => cases hact; exact ⟨rfl, fun _ _ => rfl⟩
  next => cases hact; exact ⟨rfl, fun l' hne => Table.get?_insert_ne _ _ hne⟩

/-- Stores that agree on the ledger answer alike, and agree on it afterwards. -/
theorem LocalTo.agree {action : StoreAction α} (h : LocalTo l action)
    (hsame : s.ledgers.get? l = t.ledgers.get? l) :
    (∃ e, action s = .error e ∧ action t = .error e) ∨
      ∃ a s' t', action s = .ok (a, s') ∧ action t = .ok (a, t') ∧
        s'.ledgers.get? l = t'.ledgers.get? l := by
  obtain ⟨f, rfl⟩ := h
  unfold onLedger
  rw [hsame]
  split
  next e _ => exact Or.inl ⟨e, rfl, rfl⟩
  next a _ => exact Or.inr ⟨a, s, t, rfl, rfl, hsame⟩
  next a x _ =>
    refine Or.inr ⟨a, _, _, rfl, rfl, ?_⟩
    rw [Table.get?_insert_self, Table.get?_insert_self]

theorem look_local (l : LedgerId) (f : Ledger → α) : LocalTo l (look l f) := by
  refine ⟨fun x => x.elim (.error (.noLedger l)) fun x => .ok (f x, none), ?_⟩
  funext s
  unfold look onLedger
  cases s.ledgers.get? l <;> rfl

theorem change_local (l : LedgerId) (f : Ledger → α × Ledger) : LocalTo l (change l f) := by
  refine ⟨fun x => x.elim (.error (.noLedger l)) fun x => .ok ((f x).1, some (f x).2), ?_⟩
  funext s
  unfold change onLedger
  cases s.ledgers.get? l <;> rfl

theorem watch_local (l : LedgerId) (known : EntryId) (watcher : Watcher) :
    LocalTo l (watch l known watcher) := change_local l _

theorem confirmed_local (l : LedgerId) : LocalTo l (confirmed l) := look_local l _

/-- Binding a key creates the ledger or looks at the key that it has. -/
theorem bindKey_local (l : LedgerId) (key : MasterKey) : LocalTo l (bindKey l key) := by
  refine ⟨fun x => x.elim (.ok ((), some (.create key))) fun x =>
    if x.key.accepts key.bytes then .ok ((), none)
    else .error (.rejected ("master key mismatch for " ++ l.text)), ?_⟩
  funext s
  unfold bindKey onLedger
  cases s.ledgers.get? l with
  | none => rfl
  | some x =>
      simp only [Option.elim_some]
      split <;> rfl

theorem holds_local (l : LedgerId) : LocalTo l (holds l) := ⟨fun x => .ok (x.isSome, none), rfl⟩

/-- Reading an entry looks at one ledger. -/
theorem entry_local (l : LedgerId) (id : EntryId) : LocalTo l (entry l id) := by
  refine ⟨fun x => x.elim (.error (.noLedger l)) fun x =>
    (x.entries.get? (x.resolve id)).elim (.error (.noEntry l (x.resolve id))) fun bytes =>
      .ok (bytes, none), ?_⟩
  funext s
  unfold entry onLedger
  cases s.ledgers.get? l with
  | none => rfl
  | some x =>
      simp only [Option.elim_some]
      cases x.entries.get? (x.resolve id) <;> rfl

theorem unwatch_local (l : LedgerId) (watcher : Watcher) : LocalTo l (unwatch l watcher) := by
  refine ⟨fun x => x.elim (.ok ((), none)) fun x => .ok ((), some (x.unwatch watcher)), ?_⟩
  funext s
  unfold unwatch onLedger
  cases s.ledgers.get? l <;> rfl

/-- An entry goes to the ledger in its header, also when that ledger is not there. -/
theorem append_local {bytes : Bytes} {header : Entry.Header}
    (hheader : Entry.readHeader bytes = .ok header) : LocalTo header.ledger (append bytes) := by
  refine ⟨fun x =>
    if header.isMeta then
      .error (.rejected (header.entry.text ++ " is reserved for meta entries"))
    else
      x.elim (.error (.noLedger header.ledger)) fun x =>
        if x.entries.contains header.entry then
          .error (.duplicateEntry header.ledger header.entry)
        else
          let stored := x.append header.entry bytes
          .ok ((header.entry, stored.1.map fun who => ⟨who, header.ledger, stored.2.confirmed⟩),
            some stored.2), ?_⟩
  funext s
  unfold append onLedger
  rw [hheader]
  dsimp only
  by_cases hmeta : header.isMeta = true
  · rw [if_pos hmeta, if_pos hmeta]
  · rw [if_neg hmeta, if_neg hmeta]
    cases s.ledgers.get? header.ledger with
    | none => rfl
    | some x =>
        simp only [Option.elim_some]
        split <;> rfl

/-- Whoever is told of an entry waits on its ledger. -/
theorem append_notices {bytes : Bytes} {header : Entry.Header} {id : EntryId}
    {notices : List Notice} (hheader : Entry.readHeader bytes = .ok header)
    (h : append bytes s = .ok ((id, notices), s')) :
    ∀ notice ∈ notices, notice.ledger = header.ledger := by
  obtain ⟨header', x, hheader', -, -, -, heq, -⟩ := append_spec h
  cases heq
  cases hheader.symm.trans hheader'
  intro notice hnotice
  obtain ⟨who, -, rfl⟩ := List.mem_map.mp hnotice
  rfl

theorem answering_local {action : StoreAction α} (h : LocalTo l action) (g : α → Answer) :
    LocalTo l (Request.answering action g) := by
  obtain ⟨f, rfl⟩ := h
  refine ⟨fun x => (f x).map fun r => (g r.1, r.2), ?_⟩
  funext s
  unfold Request.answering onLedger
  dsimp only
  cases f (s.ledgers.get? l) with
  | error e => rfl
  | ok r => obtain ⟨a, _ | x⟩ := r <;> rfl

/-- Each request names the one ledger that decides it. -/
theorem request_local (r : Request) : LocalTo r.ledger r.action := by
  cases r <;> simp only [Request.action, Request.ledger]
  case bindKey l secret => exact answering_local (bindKey_local l _) _
  case holds l => exact answering_local (holds_local l) _
  case entry l id => exact answering_local (entry_local l id) _
  case unwatch l watcher => exact answering_local (unwatch_local l watcher) _
  case fence l | noteConfirmed l stated | watch l known watcher =>
    exact answering_local (change_local l _) _
  case key l | isFenced l | notedConfirmed l | confirmed l | entryIds l =>
    exact answering_local (look_local l _) _

end Store

namespace Host

variable {α : Type} {w w' v : Host} {l l' : LedgerId}

/-! ### What is asked about other ledgers -/

/-- A call about another ledger leaves this one as it is. -/
theorem send_elsewhere {action : StoreAction α} (w : Host) (access : Access) (c : StoreCall)
    {l' : LedgerId} (hlocal : Store.LocalTo l' action) (hne : l' ≠ l) :
    (w.send access c action).2.store.ledgers.get? l = w.store.ledgers.get? l := by
  cases hsend : w.send access c action with
  | mk answer w₁ =>
      cases answer with
      | error e => rw [(send_error hsend).store]
      | ok a => exact (hlocal.others (send_ok hsend).1).2 l hne

/-- A watcher of another ledger may ask about that one only. -/
theorem tellWatcher_elsewhere (w : Host) {notice : Notice} (hne : notice.ledger ≠ l) :
    (w.tellWatcher notice).store.ledgers.get? l = w.store.ledgers.get? l := by
  rcases w.tellWatcher_store notice with hsame | ⟨waits, hwatch⟩
  · rw [hsame]
  · exact ((Store.watch_local notice.ledger _ _).others hwatch).2 l hne

/-- Watchers of other ledgers leave this one as it is. -/
theorem tellWatchers_elsewhere (w : Host) (notices : List Notice)
    (hne : ∀ notice ∈ notices, notice.ledger ≠ l) :
    (notices.foldl tellWatcher w).store.ledgers.get? l = w.store.ledgers.get? l := by
  induction notices generalizing w with
  | nil => rfl
  | cons notice notices ih =>
      rw [List.foldl_cons, ih _ fun n hn => hne n (List.mem_cons_of_mem _ hn)]
      exact tellWatcher_elsewhere w (hne notice List.mem_cons_self)

/-- An entry for other ledgers, or for none, makes no difference to this one. -/
theorem append_elsewhere (w : Host) (access : Access) {entry : Bytes}
    (hne : ∀ header, Entry.readHeader entry = .ok header → header.ledger ≠ l) :
    (w.append access entry).2.store.ledgers.get? l = w.store.ledgers.get? l := by
  unfold append
  cases hsend : w.send access .append (Store.append entry) with
  | mk answer w₁ =>
      cases answer with
      | error e => exact congrArg (·.ledgers.get? l) (send_error hsend).store
      | ok stored =>
          have hact := (send_ok hsend).1
          cases hheader : Entry.readHeader entry with
          | error short =>
              obtain ⟨header, -, hread, -⟩ := Store.append_spec hact
              cases hheader.symm.trans hread
          | ok header =>
              have hnotices := Store.append_notices hheader hact
              have hne := hne header hheader
              have hstored := ((Store.append_local hheader).others hact).2 l hne
              refine Eq.trans ?_ hstored
              exact tellWatchers_elsewhere w₁ _ fun n hn => hnotices n hn ▸ hne

/-- A handle stores no entry that the store takes for another ledger. -/
theorem appendThrough_elsewhere (w : Host) {l' : LedgerId} (entry : Bytes) (hne : l' ≠ l) :
    (w.appendThrough l' entry).2.store.ledgers.get? l = w.store.ledgers.get? l := by
  rcases w.appendThrough_host l' entry with hrefused | ⟨hread, hsubmitted⟩
  · rw [hrefused]
  · rw [hsubmitted]
    refine append_elsewhere w .planned fun header hheader => ?_
    cases (Entry.readLedger_of_readHeader hheader).symm.trans hread
    exact hne

/-- A ledger, the subscriptions and the handles are as they were, and no faults are
planned unless some were. -/
structure Elsewhere (l : LedgerId) (w w' : Host) : Prop where
  ledger : w'.store.ledgers.get? l = w.store.ledgers.get? l
  subscribers : w'.store.subscribers = w.store.subscribers
  unplanned : w.faults = none → w'.faults = none
  handles : HandlesGrow w.handles w'.handles

theorem SteadyCall.elsewhere (h : SteadyCall w w')
    (hledger : w'.store.ledgers.get? l = w.store.ledgers.get? l) : Elsewhere l w w' :=
  ⟨hledger, h.store.subscribers, h.onward.unplanned, .of_eq h.handles⟩

theorem Elsewhere.of_idle (h : Idle w w') : Elsewhere l w w' :=
  h.steadyCall.elsewhere (congrArg (·.ledgers.get? l) h.store)

theorem request_elsewhere (w : Host) (access : Access) {r : Request} (hne : r.ledger ≠ l) :
    Elsewhere l w (w.request access r).2 := by
  have hledger := send_elsewhere w access r.call (Store.request_local r) hne
  rcases request_cases w access r with hsteady | ⟨_, _, -, honly, hcreates⟩
  · exact hsteady.elsewhere hledger
  · exact ⟨hledger, hcreates.subscribers, honly.background.unplanned, .of_eq honly.handles⟩

/-- Nobody is told of a removal. -/
theorem remove_elsewhere (hunheard : w.store.subscribers = []) (access : Access)
    (hne : l' ≠ l) : Elsewhere l w (w.remove access l').2 := by
  rcases remove_cases w access l' with ⟨-, hidle⟩ |
    ⟨w₁, wasFenced, -, honly, hremoves, hsubscribers, htold⟩
  · exact .of_idle hidle
  · rw [hunheard, List.filter_nil] at hsubscribers
    rw [hsubscribers] at htold
    rw [htold]
    refine ⟨?_, hsubscribers.trans hunheard.symm, honly.background.unplanned,
      .of_eq honly.handles⟩
    rw [List.foldl_nil, hremoves.ledgers, Table.get?_erase, if_neg hne]

theorem createHandle_handlesGrow (w : Host) (l : LedgerId) (key : MasterKey) (ack : Bool) :
    HandlesGrow w.handles (w.createHandle l key ack).2.handles := by
  cases hcreate : w.createHandle l key ack with
  | mk answer w₁ =>
      cases answer with
      | error e => exact .of_eq (createHandle_error hcreate).handles
      | ok made => exact (createHandle_ok hcreate).2.1.handlesGrow

/-- A handle of another ledger may create that ledger, and not this one. -/
theorem createHandle_elsewhere (w : Host) (key : MasterKey) (ack : Bool) (hne : l' ≠ l) :
    Elsewhere l w (w.createHandle l' key ack).2 := by
  have hledger := send_elsewhere w .planned .bindKey (Store.bindKey_local l' key) hne
  unfold send at hledger
  cases hcreate : w.createHandle l' key ack with
  | mk answer w₁ =>
      cases answer with
      | error e => exact .of_idle (createHandle_error hcreate)
      | ok made =>
          obtain ⟨-, hmade, -⟩ := createHandle_ok hcreate
          refine ⟨?_, hmade.tells.subscribers, hmade.background.unplanned, hmade.handlesGrow⟩
          unfold createHandle at hcreate
          split at hcreate
          next => cases hcreate
          next heq =>
            cases hcreate
            rwa [heq] at hledger

/-- A call on a handle of another ledger makes no difference to this one. -/
theorem use_elsewhere (w : Host) (h : Nat) {call : HandleCall}
    (hlisted : ∀ other, call.listed? = some other → other = (w.handleAt h).ledger)
    (hne : (w.handleAt h).ledger ≠ l) : Elsewhere l w (w.use (.writable h) call).2 := by
  refine (use_steadyCall w (.writable h) call).elsewhere ?_
  cases w.use_uses (.writable h) call with
  | stays host => rw [host]
  | compares h' presented _ _ host => rw [host, (checkAccess_idle w h' presented).store]
  | submits h' entry hhandle _ hread host =>
      cases hhandle
      rw [host]
      refine append_elsewhere w .planned fun header hheader => ?_
      have hsame : header.ledger = (w.handleAt h).ledger :=
        Except.ok.inj ((Entry.readLedger_of_readHeader hheader).symm.trans hread)
      exact hsame ▸ hne
  | sends r hr host =>
      rw [host]
      refine send_elsewhere w .planned r.call (Store.request_local r) ?_
      exact HandleCall.ledger_of_request? hlisted hr ▸ hne

/-! ### What is asked about the ledger -/

/-- Two hosts without faults and listeners have the same ledger under an id, and raised
the same events. -/
structure Alike (l : LedgerId) (w v : Host) : Prop where
  ledger : w.store.ledgers.get? l = v.store.ledgers.get? l
  unplanned : w.faults = none ∧ v.faults = none
  unheard : w.store.subscribers = [] ∧ v.store.subscribers = []
  events : w.events = v.events

/-- Hosts that agree on a ledger answer alike what it alone decides. -/
theorem send_alike {action : StoreAction α} (hlocal : Store.LocalTo l action) (h : Alike l w v)
    (access : Access) (c : StoreCall) :
    (w.send access c action).1 = (v.send access c action).1 ∧
      Alike l (w.send access c action).2 (v.send access c action).2 := by
  rw [send_of_unplanned h.unplanned.1, send_of_unplanned h.unplanned.2]
  unfold ask
  rcases hlocal.agree h.ledger with ⟨e, hw, hv⟩ | ⟨a, s, t, hw, hv, hledger⟩
  · rw [hw, hv]
    exact ⟨rfl, h⟩
  · rw [hw, hv]
    exact ⟨rfl, hledger, h.unplanned, ⟨(hlocal.others hw).1.trans h.unheard.1,
      (hlocal.others hv).1.trans h.unheard.2⟩, h.events⟩

theorem Alike.emit (h : Alike l w v) (e : Event) : Alike l (w.emit e) (v.emit e) :=
  ⟨h.ledger, h.unplanned, h.unheard, congrArg (· ++ [e]) h.events⟩

/-- A watcher that is told asks about the ledger that it is told of, which both hosts
agree on. -/
theorem tellWatcher_alike {notice : Notice} (hl : notice.ledger = l) (h : Alike l w v) :
    Alike l (w.tellWatcher notice) (v.tellWatcher notice) := by
  subst hl
  unfold tellWatcher
  split
  next => exact h.emit _
  next =>
    obtain ⟨hanswer, halike⟩ := send_alike (Store.watch_local _ notice.confirmed notice.watcher) h
      .planned .watch
    unfold send at hanswer halike
    dsimp only at hanswer halike ⊢
    rw [hanswer]
    exact halike.emit _
  next =>
    obtain ⟨hanswer, halike⟩ := send_alike (Store.confirmed_local _) h .planned .confirmed
    unfold send at hanswer halike
    dsimp only at hanswer halike ⊢
    rw [hanswer]
    exact halike.emit _

/-- The watchers of an entry are told alike on both hosts. -/
theorem tellWatchers_alike (notices : List Notice) (hl : ∀ notice ∈ notices, notice.ledger = l)
    (h : Alike l w v) : Alike l (notices.foldl tellWatcher w) (notices.foldl tellWatcher v) := by
  induction notices generalizing w v with
  | nil => exact h
  | cons notice notices ih =>
      exact ih (fun n hn => hl n (List.mem_cons_of_mem _ hn))
        (tellWatcher_alike (hl notice List.mem_cons_self) h)

/-- Bytes without a header are refused, whatever is stored. -/
theorem append_alike {entry : Bytes} (h : Alike l w v) (access : Access)
    (hl : ∀ header, Entry.readHeader entry = .ok header → header.ledger = l) :
    (w.append access entry).1 = (v.append access entry).1 ∧
      Alike l (w.append access entry).2 (v.append access entry).2 := by
  cases hheader : Entry.readHeader entry with
  | error short =>
      -- the bytes are refused before any ledger is looked up
      have hrefused : ∀ u : Host, u.faults = none →
          u.append access entry = (.error (.malformedEntry short), u) := by
        intro u hunplanned
        refine append_of_refused hunplanned access ?_
        unfold Store.append
        rw [hheader]
      rw [hrefused w h.unplanned.1, hrefused v h.unplanned.2]
      exact ⟨rfl, h⟩
  | ok header =>
      have hlocal := Store.append_local hheader
      rw [hl header hheader] at hlocal
      obtain ⟨hanswer, halike⟩ := send_alike hlocal h access .append
      unfold append
      cases hw : w.send access .append (Store.append entry) with
      | mk answer w₁ =>
          cases hv : v.send access .append (Store.append entry) with
          | mk answer' v₁ =>
              rw [hw, hv] at hanswer halike
              dsimp only at hanswer halike
              subst hanswer
              cases answer with
              | error e => exact ⟨rfl, halike⟩
              | ok stored =>
                  -- the watchers who are told wait on the ledger, so the same ones are told
                  have hnotices := Store.append_notices hheader (send_ok hw).1
                  refine ⟨rfl, tellWatchers_alike stored.2 (fun n hn => ?_) halike⟩
                  exact (hnotices n hn).trans (hl header hheader)

/-- Two hosts that agree on the ledger make the same of an entry that a handle submits
to it. -/
theorem appendThrough_alike (h : Alike l w v) (entry : Bytes) :
    (w.appendThrough l entry).1 = (v.appendThrough l entry).1 ∧
      Alike l (w.appendThrough l entry).2 (v.appendThrough l entry).2 := by
  unfold appendThrough
  split
  next => exact ⟨rfl, h⟩
  next encoded hread =>
    split
    next => exact ⟨rfl, h⟩
    next hsame =>
      have hheader : ∀ header, Entry.readHeader entry = .ok header → header.ledger = l := by
        intro header hheader
        cases (Entry.readLedger_of_readHeader hheader).symm.trans hread
        exact Decidable.not_not.mp hsame
      obtain ⟨hanswer, halike⟩ := append_alike h .planned hheader
      cases hw : w.append .planned entry with
      | mk answer w₁ =>
          cases hv : v.append .planned entry with
          | mk answer' v₁ =>
              rw [hw, hv] at hanswer halike
              dsimp only at hanswer halike
              subst hanswer
              cases answer <;> exact ⟨rfl, halike⟩

/-- Two hosts that agree on the ledger answer a request about it alike. -/
theorem forward_alike {r : Request} (hl : r.ledger = l) (h : Alike l w v) :
    (w.forward r).1 = (v.forward r).1 ∧ Alike l (w.forward r).2 (v.forward r).2 := by
  obtain ⟨hanswer, halike⟩ := send_alike (hl ▸ Store.request_local r) h .planned r.call
  unfold forward request
  cases hw : w.send .planned r.call r.action with
  | mk answer w₁ =>
      cases hv : v.send .planned r.call r.action with
      | mk answer' v₁ =>
          rw [hw, hv] at hanswer halike
          dsimp only at hanswer halike
          subst hanswer
          cases answer <;> exact ⟨rfl, halike⟩

theorem answer_alike {ε α : Type} {wrap : ε → Failure} {f : α → Answer}
    {r r' : Except ε α × Host} (h : r.1 = r'.1 ∧ Alike l r.2 r'.2) :
    (answer wrap f r).1 = (answer wrap f r').1 ∧
      Alike l (answer wrap f r).2 (answer wrap f r').2 := by
  obtain ⟨answer, w⟩ := r
  obtain ⟨answer', v⟩ := r'
  obtain ⟨rfl, halike⟩ := h
  cases answer <;> exact ⟨rfl, halike⟩

/-- The removal of a ledger on which two hosts agree leaves them agreeing. -/
theorem remove_alike (h : Alike l w v) (access : Access) :
    (w.remove access l).1 = (v.remove access l).1 ∧
      Alike l (w.remove access l).2 (v.remove access l).2 := by
  have hledger := h.ledger
  unfold remove
  rw [send_of_unplanned h.unplanned.1, send_of_unplanned h.unplanned.2]
  unfold ask Store.remove
  cases hx : w.store.ledgers.get? l with
  | none =>
      rw [hx] at hledger
      rw [← hledger]
      exact ⟨rfl, h⟩
  | some x =>
      rw [hx] at hledger
      rw [← hledger]
      dsimp only
      rw [h.unheard.1, h.unheard.2]
      refine ⟨rfl, ?_, h.unplanned, ⟨rfl, rfl⟩, h.events⟩
      change (w.store.ledgers.erase l).get? l = (v.store.ledgers.erase l).get? l
      rw [Table.get?_erase, Table.get?_erase, if_pos rfl, if_pos rfl]

/-- Both fail, or both make the same handle. -/
theorem createHandle_alike (h : Alike l w v) (key : MasterKey) (ack : Bool) :
    (∃ e, (w.createHandle l key ack).1 = .error e ∧ (v.createHandle l key ack).1 = .error e ∧
        Alike l (w.createHandle l key ack).2 (v.createHandle l key ack).2) ∨
      ∃ w' v', w.createHandle l key ack = (.ok w.handles.next, w') ∧
        v.createHandle l key ack = (.ok v.handles.next, v') ∧
        w'.handles = w.handles.add (.create l key ack) ∧
        v'.handles = v.handles.add (.create l key ack) ∧ Alike l w' v' := by
  obtain ⟨hanswer, halike⟩ := send_alike (Store.bindKey_local l key) h .planned .bindKey
  unfold send at hanswer halike
  unfold createHandle
  cases hw : w.call .bindKey (Store.bindKey l key) with
  | mk answer w₁ =>
      cases hv : v.call .bindKey (Store.bindKey l key) with
      | mk answer' v₁ =>
          rw [hw, hv] at hanswer halike
          dsimp only at hanswer halike
          subst hanswer
          cases answer with
          | error e => exact Or.inl ⟨_, rfl, rfl, halike⟩
          | ok a =>
              have hhandles := (call_ok hw).2.handles
              have hhandles' := (call_ok hv).2.handles
              refine Or.inr ⟨{ w₁ with handles := w₁.handles.add (.create l key ack) },
                { v₁ with handles := v₁.handles.add (.create l key ack) }, ?_, ?_,
                congrArg (Arena.add · _) hhandles, congrArg (Arena.add · _) hhandles',
                halike.ledger, halike.unplanned, halike.unheard, halike.events⟩
              · dsimp only
                rw [hhandles]
              · dsimp only
                rw [hhandles']

/-- Handles of the same record are of the same use. -/
theorem use_alike {h h' : Nat} {x : Handle} {call : HandleCall} (halike : Alike l w v)
    (hx : w.handles.get? h = some x) (hx' : v.handles.get? h' = some x) (hl : x.ledger = l)
    (hlisted : ∀ other, call.listed? = some other → other = l) :
    (w.use (.writable h) call).1 = (v.use (.writable h') call).1 ∧
      Alike l (w.use (.writable h) call).2 (v.use (.writable h') call).2 := by
  have hat := handleAt_of_get? hx
  have hat' := handleAt_of_get? hx'
  change (w.useWritable h call).1 = (v.useWritable h' call).1 ∧
    Alike l (w.useWritable h call).2 (v.useWritable h' call).2
  unfold useWritable
  rw [hat, hat', hl]
  dsimp only
  split
  next presented =>
    unfold checkAccess
    rw [hat, hat']
    dsimp only
    by_cases haccepts : x.key.accepts presented = true
    · rw [if_pos haccepts, if_pos haccepts]
      exact ⟨rfl, halike⟩
    · rw [if_neg haccepts, if_neg haccepts]
      exact ⟨rfl, halike.ledger, halike.unplanned, halike.unheard, halike.events⟩
  next entry => exact appendThrough_alike halike entry
  next =>
    split
    next r hr => exact forward_alike (HandleCall.ledger_of_request? hlisted hr) halike
    next => exact ⟨rfl, halike⟩

end Host

end FencedLedger
