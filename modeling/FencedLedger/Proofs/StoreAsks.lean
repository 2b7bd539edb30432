import FencedLedger.Proofs.StoreSteps

/-!
# What a store is asked

A store knows nothing of the host that it belongs to: it is asked for one thing after
another, and what it was asked decides what it holds. So whatever is true of every store
that was asked some things is true of the store of a host, in the middle of a call as
well as after it. Counts go along: calls other than those about fencing leave the counts
of fencing alone. So do events: a call raises some at the end of those raised before, and
which kinds it may raise depends on the operation.
-/

namespace FencedLedger

/-- What may be asked of a store. -/
inductive Ask where
  | request (r : Request)
  | append (entry : Bytes)
  | remove (present : Subscriber → Bool) (ledger : LedgerId)
  | subscribe (who : Subscriber)

/-- Whether an operation may raise an event: of advances when it submits an entry to the
store, of a deletion when it deletes, and of journals when it is about fencing. -/
def Op.mayRaise : Op → Event → Bool
  | .append .., .advanced .. => true
  | .use _ (.append _), .advanced .. => true
  | .remove .., .deleted .. => true
  | op, .refenced _ => op.concernsFencing
  | op, .completed .. => op.concernsFencing
  | _, _ => false

@[simp] theorem Op.mayRaise_refenced (op : Op) (answer : Except HandleError Outcome) :
    op.mayRaise (.refenced answer) = op.concernsFencing := by
  simp [mayRaise]

@[simp] theorem Op.mayRaise_completed (op : Op) (label : String) (report : Completion) :
    op.mayRaise (.completed label report) = op.concernsFencing := by
  simp [mayRaise]

namespace Store

variable {α : Type} {s s' : Store}

/-- The store behind an action, which an action that fails leaves as it is. -/
def behind (s : Store) (action : StoreAction α) : Store :=
  match action s with
  | .ok (_, s') => s'
  | .error _ => s

theorem behind_of_ok {action : StoreAction α} {a : α} (h : action s = .ok (a, s')) :
    s.behind action = s' := by
  unfold behind
  rw [h]

theorem behind_answering (s : Store) (action : StoreAction α) (f : α → Answer) :
    s.behind (Request.answering action f) = s.behind action := by
  unfold behind Request.answering
  rcases action s with e | ⟨a, s'⟩ <;> rfl

/-- The store after it was asked for something. -/
def serve (s : Store) : Ask → Store
  | .request r => s.behind r.action
  | .append entry => s.behind (append entry)
  | .remove present l => s.behind (remove present l)
  | .subscribe who => s.subscribe who

/-- The store after it was asked for one thing after another. -/
def serveAll (s : Store) (asks : List Ask) : Store := asks.foldl serve s

theorem serveAll_append (s : Store) (asks asks' : List Ask) :
    s.serveAll (asks ++ asks') = (s.serveAll asks).serveAll asks' :=
  List.foldl_append

/-- An action is something that a store may be asked. -/
def IsAsk (action : StoreAction α) : Prop := ∃ ask, ∀ s : Store, s.behind action = s.serve ask

theorem request_isAsk (r : Request) : IsAsk r.action := ⟨.request r, fun _ => rfl⟩

theorem append_isAsk (entry : Bytes) : IsAsk (append entry) := ⟨.append entry, fun _ => rfl⟩

theorem remove_isAsk (present : Subscriber → Bool) (l : LedgerId) : IsAsk (remove present l) :=
  ⟨.remove present l, fun _ => rfl⟩

/-- A request asks for what its action does, however it words the answer. -/
theorem isAsk_of_answering {action : StoreAction α} {f : α → Answer} {r : Request}
    (h : r.action = Request.answering action f) : IsAsk action := by
  refine ⟨.request r, fun s => ?_⟩
  change s.behind action = s.behind r.action
  rw [h, behind_answering]

theorem fence_isAsk (l : LedgerId) : IsAsk (fence l) := isAsk_of_answering (r := .fence l) rfl

end Store

namespace Host

variable {w w' w'' : Host}

/-- The store of a host was asked some things. -/
def Asks (w w' : Host) : Prop := ∃ asks, w'.store = w.store.serveAll asks

theorem asks_of_store (h : w'.store = w.store) : Asks w w' := ⟨[], h⟩

theorem Asks.trans (h : Asks w w') (h' : Asks w' w'') : Asks w w'' := by
  obtain ⟨asks, hasks⟩ := h
  obtain ⟨asks', hasks'⟩ := h'
  exact ⟨asks ++ asks', by rw [hasks', hasks, Store.serveAll_append]⟩

/-- More events were raised, all of them of the given kinds. -/
def Emits (kinds : Event → Bool) (w w' : Host) : Prop :=
  ∃ raised, w'.events = w.events ++ raised ∧ ∀ e ∈ raised, kinds e = true

theorem emits_of_events {kinds : Event → Bool} (h : w'.events = w.events) :
    Emits kinds w w' :=
  ⟨[], by rw [h, List.append_nil], by simp⟩

theorem Emits.trans {kinds : Event → Bool} (h : Emits kinds w w') (h' : Emits kinds w' w'') :
    Emits kinds w w'' := by
  obtain ⟨raised, hraised, hkinds⟩ := h
  obtain ⟨raised', hraised', hkinds'⟩ := h'
  refine ⟨raised ++ raised', ?_, fun e he => ?_⟩
  · rw [hraised', hraised, List.append_assoc]
  · exact (List.mem_append.mp he).elim (hkinds e) (hkinds' e)

/-- Where no kind is raised, no event is. -/
theorem Emits.events_eq (h : Emits (fun _ => false) w w') : w'.events = w.events := by
  obtain ⟨raised, hraised, hkinds⟩ := h
  have hnone : raised = [] := List.eq_nil_iff_forall_not_mem.mpr fun e he =>
    Bool.false_ne_true (hkinds e he)
  rw [hraised, hnone, List.append_nil]

/-- The store was asked some things, and events of the given kinds were raised. -/
structure Acts (kinds : Event → Bool) (w w' : Host) : Prop where
  asks : Asks w w'
  emits : Emits kinds w w'

/-- Nothing about fencing was counted either. -/
structure Works (kinds : Event → Bool) (w w' : Host) : Prop extends Acts kinds w w' where
  counts : ∀ c, c.concernsFencing = true → w'.metrics.count c = w.metrics.count c

variable {kinds : Event → Bool}

theorem acts_of_eq (hstore : w'.store = w.store) (hevents : w'.events = w.events) :
    Acts kinds w w' :=
  ⟨asks_of_store hstore, emits_of_events hevents⟩

theorem Acts.trans (h : Acts kinds w w') (h' : Acts kinds w' w'') : Acts kinds w w'' :=
  ⟨h.asks.trans h'.asks, h.emits.trans h'.emits⟩

theorem works_of_eq (hstore : w'.store = w.store) (hevents : w'.events = w.events)
    (hmetrics : w'.metrics = w.metrics) : Works kinds w w' :=
  ⟨acts_of_eq hstore hevents, fun _ _ => by rw [hmetrics]⟩

theorem Works.refl (w : Host) : Works kinds w w := works_of_eq rfl rfl rfl

theorem Works.trans (h : Works kinds w w') (h' : Works kinds w' w'') : Works kinds w w'' where
  toActs := h.toActs.trans h'.toActs
  counts c hc := (h'.counts c hc).trans (h.counts c hc)

variable (kinds)

/-! ### Calls on the store -/

section Store

variable {α : Type} {action : StoreAction α}

theorem enter_works (w : Host) (c : StoreCall) : Works kinds w (w.enter c).2 := by
  unfold enter
  split
  next => exact .refl w
  next => exact works_of_eq rfl rfl rfl

/-- An action that is one of the requests leaves the store as if it was asked for that. -/
theorem ask_works (haction : Store.IsAsk action) (w : Host) : Works kinds w (w.ask action).2 := by
  obtain ⟨asked, hasked⟩ := haction
  unfold Host.ask
  split
  next => exact .refl w
  next hact =>
    refine ⟨⟨⟨[asked], ?_⟩, emits_of_events rfl⟩, fun _ _ => rfl⟩
    exact (Store.behind_of_ok hact).symm.trans (hasked w.store)

/-- A fault may answer in its place, and then the store was asked nothing. -/
theorem call_works (haction : Store.IsAsk action) (w : Host) (c : StoreCall) :
    Works kinds w (w.call c action).2 := by
  have hentered := enter_works kinds w c
  unfold call
  split
  next hfault => rwa [hfault] at hentered
  next w₁ hpassed =>
    rw [hpassed] at hentered
    exact hentered.trans (ask_works kinds haction w₁)

theorem send_works (haction : Store.IsAsk action) (w : Host) (access : Access) (c : StoreCall) :
    Works kinds w (w.send access c action).2 := by
  cases access with
  | planned => exact call_works kinds haction w c
  | direct => exact ask_works kinds haction w

end Store

theorem request_works (w : Host) (access : Access) (r : Request) :
    Works kinds w (w.request access r).2 :=
  send_works kinds (Store.request_isAsk r) w access r.call

/-- Most counts are not about fencing. -/
theorem count_works {c : Counter} (hc : c.concernsFencing = false) (w : Host) (n : Nat) :
    Works kinds w (w.count c n) := by
  refine ⟨acts_of_eq rfl rfl, fun c' hc' => ?_⟩
  have hne : c ≠ c' := by
    rintro rfl
    cases hc'.symm.trans hc
  change (w.metrics.add c n).count c' = _
  rw [Metrics.count_add, if_neg hne, Nat.add_zero]

/-- Nothing more happens in a look-up. -/
theorem works_holdsOfLookups : HoldsOfLookups (Works kinds) where
  refl := .refl
  trans := .trans
  request := request_works kinds
  count w _ n hc := count_works kinds hc w n
  gauge w kind value := ⟨acts_of_eq rfl rfl, fun _ _ => by cases kind <;> rfl⟩
  objects _ _ _ _ _ := works_of_eq rfl rfl rfl

theorem emit_works {e : Event} (he : kinds e = true) (w : Host) : Works kinds w (w.emit e) :=
  ⟨⟨asks_of_store rfl, ⟨[e], rfl, by simpa using he⟩⟩, fun _ _ => rfl⟩

theorem remove_works {kinds : Event → Bool} (hdeleted : ∀ observer l wasFenced held reopened,
    kinds (.deleted observer l wasFenced held reopened) = true) (w : Host) (access : Access)
    (l : LedgerId) : Works kinds w (w.remove access l).2 :=
  (works_holdsOfLookups kinds).remove (fun w _ _ _ _ _ => emit_works kinds (hdeleted _ _ _ _ _) w)
    (fun w access l => send_works kinds (Store.remove_isAsk w.isPresent l) w access .remove)
    w access l

theorem append_works {kinds : Event → Bool}
    (hadvanced : ∀ notice reacted, kinds (.advanced notice reacted) = true) (w : Host)
    (access : Access) (entry : Bytes) : Works kinds w (w.append access entry).2 :=
  (works_holdsOfLookups kinds).append (fun w _ _ => emit_works kinds (hadvanced _ _) w)
    (fun w access entry => send_works kinds (Store.append_isAsk entry) w access .append)
    w access entry

/-! ### Fencing -/

theorem acts_ignoresBooks : IgnoresBooks (Acts kinds) where
  trans := .trans
  books _ _ _ _ := acts_of_eq rfl rfl

theorem decideFence_acts (w : Host) (h : Nat) : Acts kinds w (w.decideFence h).2 :=
  (acts_ignoresBooks kinds).decideFence
    (fun w l => (call_works kinds (Store.fence_isAsk l) w .fence).toActs) w h

variable {kinds}

/-- A journal may report on an entry, and fence a handle on the way. -/
theorem acts_holdsOfFencing (hcompleted : ∀ label report, kinds (.completed label report) = true)
    (hrefenced : ∀ answer, kinds (.refenced answer) = true) :
    HoldsOfFencing (Acts kinds) :=
  (acts_ignoresBooks kinds).holdsOfFencing (fun _ _ => acts_of_eq rfl rfl)
    (fun _ _ => acts_of_eq rfl rfl)
    (fun w l => (call_works kinds (Store.fence_isAsk l) w .fence).toActs)
    (fun w label report => (emit_works kinds (hcompleted label report) w).toActs)
    fun w answer => (emit_works kinds (hrefenced answer) w).toActs

/-! ### Operations -/

/-- An operation that is not about fencing leaves its counts alone. -/
theorem perform_works (w : Host) {op : Op} (hop : op.concernsFencing = false) :
    Works op.mayRaise w (w.perform op).2 := by
  cases hasks : op.asksStore with
  | true =>
      refine (works_holdsOfLookups op.mayRaise).perform w ?_ ?_ hasks
      · rintro (⟨access, entry, rfl⟩ | ⟨handle, entry, rfl⟩)
        · exact append_works fun _ _ => rfl
        · exact append_works fun _ _ => rfl
      · rintro ⟨access, l, rfl⟩
        exact remove_works fun _ _ _ _ _ => rfl
  | false =>
      cases op with
      | observe | createCache =>
          exact ⟨⟨⟨[.subscribe _], rfl⟩, emits_of_events rfl⟩, fun _ _ => rfl⟩
      | unobserve | releaseCache => exact whenHeld_host (.refl w) (works_of_eq rfl rfl rfl)
      | planFault | clearFaults | raise | takeInterrupt | startWorker =>
          exact works_of_eq rfl rfl rfl
      | request | append | remove | openWritable | openReader | tellCache | createHandle
      | createReader | use => cases hasks
      | _ => cases hop

/-- Every operation asks the store for some things, one after the other. -/
theorem perform_acts (w : Host) (op : Op) : Acts op.mayRaise w (w.perform op).2 := by
  cases hop : op.concernsFencing with
  | false => exact (perform_works w hop).toActs
  | true =>
      have hacts : HoldsOfFencing (Acts op.mayRaise) :=
        acts_holdsOfFencing (fun label report => (op.mayRaise_completed label report).trans hop)
          fun answer => (op.mayRaise_refenced answer).trans hop
      exact hacts.perform (fun _ _ => acts_of_eq rfl rfl) w hop

/-- After every run, the store of a host is one that was asked some things. -/
theorem run_asks (w : Host) (ops : List Op) : Asks w (w.run ops) := by
  induction ops generalizing w with
  | nil => exact asks_of_store rfl
  | cons op ops ih => exact (perform_acts w op).asks.trans (ih _)

end Host

end FencedLedger
