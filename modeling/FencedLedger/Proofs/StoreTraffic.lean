import FencedLedger.Proofs.DeletionNotices
import FencedLedger.Proofs.FaultScripts

/-!
# The traffic between a host and its store

A host that plans faults keeps a store behind the plan: a call reaches the store only if
the plan lets it pass. What goes on between the two is put down here as one list, in the
order in which it takes place, whoever makes the calls and in the middle of which other
calls: faults that are armed and cleared, calls that failed, calls that the store served
with its responses, and who was told of what. However long the list, the store did what
a store without faults does that gets only the served calls, and the plan saw the faults
and the calls.
-/

namespace FencedLedger

/-- What a store wants somebody to be told. -/
inductive News where
  /-- A watcher is to be told of an advance. -/
  | advance (notice : Notice)
  /-- A subscriber is to be told of a deletion. -/
  | deletion (who : Subscriber) (ledger : LedgerId) (wasFenced : Bool)
  deriving DecidableEq, Repr

/-- How a store responds: the answer, and who is to be told of what, in order. -/
structure Response where
  answer : Except StoreError Answer
  news : List News

/-- What is news of an answer. A failure is none. -/
def Response.newsOf {α : Type} (news : α → List News) : Except StoreError α → List News
  | .ok a => news a
  | .error _ => []

/-- What an action comes to, as a response. -/
def Response.of {α : Type} (f : α → Answer) (news : α → List News)
    (done : Except StoreError (α × Store)) : Response :=
  ⟨done.map fun r => f r.1, newsOf (fun r => news r.1) done⟩

/-- The kind of call that a store is asked by. Subscriptions are not planned for. -/
def Ask.call? : Ask → Option StoreCall
  | .request r => some r.call
  | .append _ => some .append
  | .remove .. => some .remove
  | .subscribe _ => none

namespace Store

/-- How a store responds. -/
def respond (s : Store) : Ask → Response
  | .request r => .of id (fun _ => []) (r.action s)
  | .append entry => .of (fun stored => .entry stored.1) (·.2.map .advance) (append entry s)
  | .remove present l =>
      .of (fun _ => .done) (fun removed => removed.2.map (.deletion · l removed.1))
        (remove present l s)
  | .subscribe _ => ⟨.ok .done, []⟩

/-- How a store without faults responds to one thing after another. -/
def responses (s : Store) : List Ask → List Response
  | [] => []
  | ask :: asks => s.respond ask :: (s.serve ask).responses asks

theorem responses_append (s : Store) (asks asks' : List Ask) :
    s.responses (asks ++ asks') = s.responses asks ++ (s.serveAll asks).responses asks' := by
  induction asks generalizing s with
  | nil => rfl
  | cons ask asks ih => exact congrArg (List.cons _) (ih _)

end Store

/-- What goes on between a host and its store. -/
inductive Exchange where
  /-- A fault is armed for a kind of call. -/
  | armed (call : StoreCall) (fault : Fault)
  /-- Every fault is disarmed. -/
  | cleared
  /-- A call failed, and did not reach the store. -/
  | failed (ask : Ask) (error : StoreError)
  /-- The store served a call that came this way. -/
  | served (access : Host.Access) (ask : Ask) (response : Response)
  /-- Somebody was told of something. -/
  | told (news : News)

namespace Exchange

/-- What the store was asked, if the call got there. -/
def ask? : Exchange → Option Ask
  | .served _ ask _ => some ask
  | _ => none

/-- How the store responded. -/
def response? : Exchange → Option Response
  | .served _ _ response => some response
  | _ => none

/-- How a call was answered, by the store or in its place. -/
def answer? : Exchange → Option (Except StoreError Answer)
  | .failed _ e => some (.error e)
  | .served _ _ response => some response.answer
  | _ => none

/-- Who is to be told of what. -/
def news : Exchange → List News
  | .served _ _ response => response.news
  | _ => []

/-- What somebody was told. -/
def told? : Exchange → Option News
  | .told news => some news
  | _ => none

/-- What is arranged with the plan of faults. -/
def arrangement? : Exchange → Option FaultStep
  | .armed call fault => some (.armed call fault)
  | .cleared => some .cleared
  | _ => none

/-- What the plan of faults sees of it. Calls that go past the plan are not seen. -/
def step? : Exchange → Option FaultStep
  | .armed call fault => some (.armed call fault)
  | .cleared => some .cleared
  | .failed ask e => ask.call?.map (.called · (some e))
  | .served .planned ask _ => ask.call?.map (.called · none)
  | .served .direct .. | .told _ => none

end Exchange

/-- A list of what went on, oldest first. -/
abbrev Exchanges := List Exchange

namespace Exchanges

/-- What the store was asked. -/
def asks (log : Exchanges) : List Ask := log.filterMap Exchange.ask?

/-- How the store responded. -/
def responses (log : Exchanges) : List Response := log.filterMap Exchange.response?

/-- Who was to be told of what. -/
def news (log : Exchanges) : List News := log.flatMap Exchange.news

/-- Who was told of what. -/
def told (log : Exchanges) : List News := log.filterMap Exchange.told?

/-- What was arranged with the plan of faults. -/
def script (log : Exchanges) : List FaultStep := log.filterMap Exchange.arrangement?

/-- What the plan of faults saw. -/
def steps (log : Exchanges) : List FaultStep := log.filterMap Exchange.step?

@[simp] theorem asks_append (log log' : Exchanges) : asks (log ++ log') = log.asks ++ log'.asks :=
  List.filterMap_append

@[simp] theorem responses_append (log log' : Exchanges) :
    responses (log ++ log') = log.responses ++ log'.responses :=
  List.filterMap_append

@[simp] theorem news_append (log log' : Exchanges) : news (log ++ log') = log.news ++ log'.news :=
  List.flatMap_append

@[simp] theorem told_append (log log' : Exchanges) : told (log ++ log') = log.told ++ log'.told :=
  List.filterMap_append

@[simp] theorem script_append (log log' : Exchanges) :
    script (log ++ log') = log.script ++ log'.script :=
  List.filterMap_append

@[simp] theorem steps_append (log log' : Exchanges) :
    steps (log ++ log') = log.steps ++ log'.steps :=
  List.filterMap_append

end Exchanges

namespace Host

variable {w w' w'' : Host} {log log' : Exchanges}

/-! ### One call -/

/-- Let the plan of faults answer what the store is asked, if it is asked by the plan. -/
def letPass (w : Host) (access : Access) (ask : Ask) : Option StoreError × Host :=
  match access, ask.call? with
  | .planned, some c => w.enter c
  | _, _ => (none, w)

/-- Ask the store for something. The plan may answer in its place. -/
def exchange (w : Host) (access : Access) (ask : Ask) : Exchange × Host :=
  match w.letPass access ask with
  | (some e, w) => (.failed ask e, w)
  | (none, w) =>
      (.served access ask (w.store.respond ask), { w with store := w.store.serve ask })

theorem enter_store (w : Host) (c : StoreCall) : (w.enter c).2.store = w.store := by
  unfold enter
  split <;> rfl

theorem letPass_store (w : Host) (access : Access) (ask : Ask) :
    (w.letPass access ask).2.store = w.store := by
  unfold letPass
  split
  next => exact enter_store w _
  next => rfl

/-- What an action asks for, how its answer is worded, and who is to be told. -/
structure Asking {α : Type} (c : StoreCall) (action : StoreAction α) (f : α → Answer)
    (news : α → List News) (ask : Ask) : Prop where
  call : ask.call? = some c
  behind : ∀ s : Store, s.behind action = s.serve ask
  response : ∀ s : Store, s.respond ask = .of f news (action s)

/-- A call sent to the store is one exchange: it leaves the same host behind, and the same
answer with the same news. -/
structure Sends {α : Type} (f : α → Answer) (news : α → List News)
    (sent : Except StoreError α × Host) (made : Exchange × Host) : Prop where
  host : made.2 = sent.2
  answer : made.1.answer? = some (sent.1.map f)
  news : made.1.news = Response.newsOf news sent.1

theorem Sends.silent {α : Type} {f : α → Answer} {sent : Except StoreError α × Host}
    {made : Exchange × Host} (h : Sends f (fun _ => []) sent made) : made.1.news = [] := by
  rw [h.news]
  unfold Response.newsOf
  split <;> rfl

section Calls

variable {α : Type} {c : StoreCall} {action : StoreAction α} {f : α → Answer}
  {news : α → List News} {ask : Ask}

/-- A call that reaches the store is served, with what the store responds. -/
theorem ask_sends (h : Asking c action f news ask) (w : Host) (access : Access) :
    Sends f news (w.ask action)
      (.served access ask (w.store.respond ask), { w with store := w.store.serve ask }) := by
  rw [h.response, ← h.behind]
  unfold Host.ask Store.behind
  split
  next e hfailed =>
    rw [hfailed]
    exact ⟨rfl, rfl, rfl⟩
  next a s hdone =>
    rw [hdone]
    exact ⟨rfl, rfl, rfl⟩

/-- A call is served unless the plan fails it. -/
theorem send_sends (h : Asking c action f news ask) (w : Host) (access : Access) :
    Sends f news (w.send access c action) (w.exchange access ask) := by
  unfold exchange letPass
  rw [h.call]
  cases access with
  | direct => exact ask_sends h w .direct
  | planned =>
      unfold send Host.call
      dsimp only
      rcases w.enter c with ⟨_ | e, w₁⟩
      · exact ask_sends h w₁ .planned
      · exact ⟨rfl, rfl, rfl⟩

theorem request_asking (r : Request) : Asking r.call r.action id (fun _ => []) (.request r) :=
  ⟨rfl, fun _ => rfl, fun _ => rfl⟩

theorem append_asking (entry : Bytes) :
    Asking .append (Store.append entry) (fun stored => .entry stored.1) (·.2.map .advance)
      (.append entry) :=
  ⟨rfl, fun _ => rfl, fun _ => rfl⟩

theorem remove_asking (present : Subscriber → Bool) (l : LedgerId) :
    Asking .remove (Store.remove present l) (fun _ => .done)
      (fun removed => removed.2.map (.deletion · l removed.1)) (.remove present l) :=
  ⟨rfl, fun _ => rfl, fun _ => rfl⟩

/-- A request asks for what its action does. -/
theorem asking_of_answering {r : Request} (h : r.action = Request.answering action f) :
    Asking r.call action f (fun _ => []) (.request r) where
  call := rfl
  behind s := by
    change s.behind action = s.behind r.action
    rw [h, Store.behind_answering]
  response s := by
    change Response.of id (fun _ => []) (r.action s) = _
    rw [h]
    unfold Request.answering
    rcases action s with e | ⟨a, s'⟩ <;> rfl

end Calls

/-! ### Any number of calls -/

/-- What a watcher does when it is told: which call it makes, what it makes of the answer,
and the host behind it. -/
inductive Reacts (w : Host) (notice : Notice) : Exchanges → Reacted → Host → Prop
  | record (hkind : notice.watcher.reaction = .record) : Reacts w notice [] .recorded w
  | rearm {answer : Except StoreError Bool} {made : Exchange × Host}
      (hkind : notice.watcher.reaction = .rearm)
      (hmade : w.exchange .planned
        (.request (.watch notice.ledger notice.confirmed notice.watcher)) = made)
      (hanswer : made.1.answer? = some (answer.map .flag)) :
      Reacts w notice [made.1] (.rearmed answer) made.2
  | read {answer : Except StoreError EntryId} {made : Exchange × Host}
      (hkind : notice.watcher.reaction = .read)
      (hmade : w.exchange .planned (.request (.confirmed notice.ledger)) = made)
      (hanswer : made.1.answer? = some (answer.map .entry)) :
      Reacts w notice [made.1] (.read answer) made.2

end Host

/-- Whether an event reports that somebody was told of something. -/
def Event.reportsNews : Event → Bool
  | .advanced .. | .deleted .. => true
  | .refenced _ | .completed .. => false

namespace Host

/-- What went on between a host and its store until the host was another. Without traffic
the store and the plan stay as they are, and nobody is told of anything. A watcher and an
observer who are told report that once they are done, and what they do is traffic too. -/
inductive Talks : Host → Exchanges → Host → Prop
  | quiet {w w' : Host} (store : w'.store = w.store) (faults : w'.faults = w.faults)
      (events : w'.events.filter Event.reportsNews = w.events.filter Event.reportsNews) :
      Talks w [] w'
  | onward {w w' w'' : Host} {log log' : Exchanges} (first : Talks w log w')
      (rest : Talks w' log' w'') : Talks w (log ++ log') w''
  | armed (w : Host) (c : StoreCall) (fault : Fault) :
      Talks w [.armed c fault] { w with faults := w.faults.map (·.arm c fault) }
  | cleared (w : Host) : Talks w [.cleared] { w with faults := w.faults.map FaultPlan.clear }
  | exchanged (w : Host) (access : Access) (ask : Ask) :
      Talks w [(w.exchange access ask).1] (w.exchange access ask).2
  | advanced {w w' : Host} {notice : Notice} {log : Exchanges} {reacted : Reacted}
      (reacts : Reacts w notice log reacted w') :
      Talks w (.told (.advance notice) :: log) (w'.emit (.advanced notice reacted))
  | deleted {w w' : Host} {o : Nat} {observer : Observer} {log : Exchanges}
      (hobserver : w.observers.get? o = some observer) (l : LedgerId) (wasFenced : Bool)
      (reopened : Option (Except HandleError Unit)) (talks : Talks w log w') :
      Talks w (.told (.deletion (.observer o) l wasFenced) :: log)
        (w'.emit (.deleted observer.label l wasFenced (w.store.ledgers.contains l) reopened))
  | dropped (w : Host) (c : Nat) (l : LedgerId) (wasFenced : Bool) :
      Talks w [.told (.deletion (.cache c) l wasFenced)] (w.tellCache c l wasFenced)

/-- The store did what one without faults does that is asked only for what was served, and
the plan saw the faults and the calls. -/
structure Accords (w : Host) (log : Exchanges) (w' : Host) : Prop where
  store : w'.store = w.store.serveAll log.asks
  responses : log.responses = w.store.responses log.asks
  plan : ∀ plan, w.faults = some plan → ∃ plan', w'.faults = some plan' ∧
    plan.Follows log.steps plan'

theorem accords_of_quiet (hstore : w'.store = w.store) (hfaults : w'.faults = w.faults) :
    Accords w [] w' where
  store := hstore
  responses := rfl
  plan plan hplan := ⟨plan, hfaults.trans hplan, .refl⟩

theorem Accords.trans (h : Accords w log w') (h' : Accords w' log' w'') :
    Accords w (log ++ log') w'' where
  store := by rw [Exchanges.asks_append, Store.serveAll_append, h'.store, h.store]
  responses := by
    rw [Exchanges.responses_append, Exchanges.asks_append, Store.responses_append, h.responses,
      h'.responses, h.store]
  plan plan hplan := by
    obtain ⟨plan', hplan', hfollows⟩ := h.plan plan hplan
    obtain ⟨plan'', hplan'', hfollows'⟩ := h'.plan plan' hplan'
    exact ⟨plan'', hplan'', Exchanges.steps_append log log' ▸ hfollows.trans hfollows'⟩

/-- Telling somebody is no matter of the store. -/
theorem Accords.told (h : Accords w log w') (news : News) : Accords w (.told news :: log) w' :=
  ⟨h.store, h.responses, h.plan⟩

theorem Accords.emit (h : Accords w log w') (e : Event) : Accords w log (w'.emit e) :=
  ⟨h.store, h.responses, h.plan⟩

/-- The plan goes on as the exchange says, whether it admits the call or answers it. -/
theorem letPass_follows (w : Host) (access : Access) (ask : Ask) {plan : FaultPlan}
    (hplan : w.faults = some plan) : ∃ plan', (w.letPass access ask).2.faults = some plan' ∧
      plan.Follows (Exchanges.steps [(w.exchange access ask).1]) plan' := by
  unfold exchange letPass
  cases access with
  | direct => exact ⟨plan, hplan, .refl⟩
  | planned =>
      cases hcall : ask.call? with
      | none =>
          refine ⟨plan, hplan, ?_⟩
          simp only [Exchanges.steps, List.filterMap_cons, Exchange.step?, hcall]
          exact .refl
      | some c =>
          have hsees : plan.Follows [.called c (plan.enter c).1] (plan.enter c).2 :=
            .snoc .refl (.enter plan c)
          unfold enter
          simp only [hplan]
          refine ⟨_, rfl, ?_⟩
          rcases hentered : plan.enter c with ⟨_ | e, plan'⟩ <;>
            simpa [Exchanges.steps, Exchange.step?, hcall, hentered] using hsees

/-- One exchange moves the store if it was served, and the plan in any case. -/
theorem exchange_accords (w : Host) (access : Access) (ask : Ask) :
    Accords w [(w.exchange access ask).1] (w.exchange access ask).2 := by
  have hstore := letPass_store w access ask
  have hfollows := @letPass_follows w access ask
  unfold exchange at hfollows ⊢
  rcases hpassed : w.letPass access ask with ⟨_ | e, w₁⟩
  all_goals
    rw [hpassed] at hstore
    simp only [hpassed] at hfollows
  · refine ⟨?_, ?_, fun _ => hfollows⟩
    · exact congrArg (·.serve ask) hstore
    · exact congrArg (fun s => [Store.respond s ask]) hstore
  · exact ⟨hstore, rfl, fun _ => hfollows⟩

theorem Reacts.accords {notice : Notice} {reacted : Reacted}
    (h : Reacts w notice log reacted w') : Accords w log w' := by
  cases h with
  | record => exact accords_of_quiet rfl rfl
  | rearm _ hmade _ => exact hmade ▸ exchange_accords w _ _
  | read _ hmade _ => exact hmade ▸ exchange_accords w _ _

/-- A cache that is told calls on nothing. -/
theorem tellCache_faults (w : Host) (c : Nat) (l : LedgerId) (wasFenced : Bool) :
    (w.tellCache c l wasFenced).faults = w.faults := by
  unfold tellCache
  dsimp only
  split
  next =>
    obtain ⟨memory, metrics, heq⟩ := rememberDeletion_eq w c l
    rw [heq]
    rfl
  next => rfl

/-- Whatever was said, one call after another, accords with the store and the plan. -/
theorem Talks.accords (h : Talks w log w') : Accords w log w' := by
  induction h with
  | quiet hstore hfaults _ => exact accords_of_quiet hstore hfaults
  | onward _ _ ihfirst ihrest => exact ihfirst.trans ihrest
  | armed w c fault =>
      refine ⟨rfl, rfl, fun plan hplan => ⟨plan.arm c fault, ?_, .snoc .refl (.arm plan c fault)⟩⟩
      simp [hplan]
  | cleared w =>
      refine ⟨rfl, rfl, fun plan hplan => ⟨plan.clear, ?_, .snoc .refl (.clear plan)⟩⟩
      simp [hplan]
  | exchanged w access ask => exact exchange_accords w access ask
  | advanced hreacts => exact (hreacts.accords.told _).emit _
  | deleted _ _ _ _ _ ih => exact (ih.told _).emit _
  | dropped w c l wasFenced =>
      exact (accords_of_quiet (tellCache_drops w c l wasFenced).store
        (tellCache_faults w c l wasFenced)).told _

end Host

end FencedLedger
