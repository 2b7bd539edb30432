import FencedLedger.Proofs.StoreTraffic

/-!
# A store with faults serves as one without

Whatever is done on a host that plans faults, also by watchers and observers in the middle
of an append or a deletion, the traffic with its store is that of the calls that were
made: a store without faults that gets only the calls that were not failed, in the order in
which they came, holds the same and responds the same, and those it wants to be told are
told. Which calls fail follows from the script of faults alone.
-/

namespace FencedLedger

/-- What may be done on a host, also while appends, deletions and fence calls are under
way. -/
inductive Deed where
  /-- Something happens, as it does on any host. -/
  | happen (next : Happening)
  /-- An entry is stored, and nobody is told yet. -/
  | store (access : Host.Access) (entry : Bytes)
  /-- A watcher is told of an advance. -/
  | notify (notice : Notice)

/-- What an operation arranges with the plan of faults. -/
def Op.arranges : Op → List FaultStep
  | .planFault call fault => [.armed call fault]
  | .clearFaults => [.cleared]
  | _ => []

/-- What a deed arranges with the plan of faults. -/
def Deed.arranges : Deed → List FaultStep
  | .happen (.act op) => op.arranges
  | _ => []

namespace Exchanges

/-- Nobody is to be told of anything that was not told before, and nothing is arranged. -/
structure Conveys (told : List News) (log : Exchanges) : Prop where
  news : log.news = []
  told : log.told = told
  script : log.script = []

theorem conveys_nil : Conveys [] [] := ⟨rfl, rfl, rfl⟩

theorem Conveys.append {told told' : List News} {log log' : Exchanges} (h : Conveys told log)
    (h' : Conveys told' log') : Conveys (told ++ told') (log ++ log') where
  news := by simp [h.news, h'.news]
  told := by simp [h.told, h'.told]
  script := by simp [h.script, h'.script]

theorem Conveys.telling {told : List News} {log : Exchanges} (h : Conveys told log) (news : News) :
    Conveys (news :: told) (.told news :: log) :=
  ⟨h.news, congrArg (List.cons news) h.told, h.script⟩

end Exchanges

namespace Host

open Exchanges (Conveys)

variable {w w' w'' : Host} {told told' : List News}

/-! ### Telling -/

/-- Calls were made that are news to nobody, and some were told of something. -/
def Chats (told : List News) (w w' : Host) : Prop :=
  ∃ log, Talks w log w' ∧ Conveys told log

theorem chats_of_eq (hstore : w'.store = w.store) (hfaults : w'.faults = w.faults)
    (hevents : w'.events.filter Event.reportsNews = w.events.filter Event.reportsNews) :
    Chats [] w w' :=
  ⟨[], .quiet hstore hfaults hevents, Exchanges.conveys_nil⟩

theorem Chats.refl (w : Host) : Chats [] w w := chats_of_eq rfl rfl rfl

theorem Chats.trans (h : Chats told w w') (h' : Chats told' w' w'') :
    Chats (told ++ told') w w'' := by
  obtain ⟨log, htalks, hconveys⟩ := h
  obtain ⟨log', htalks', hconveys'⟩ := h'
  exact ⟨log ++ log', htalks.onward htalks', hconveys.append hconveys'⟩

/-- A call tells nobody of anything, and arranges nothing. -/
theorem exchange_mute (w : Host) (access : Access) (ask : Ask) :
    Exchanges.told [(w.exchange access ask).1] = [] ∧
      Exchanges.script [(w.exchange access ask).1] = [] := by
  unfold exchange
  split <;> exact ⟨rfl, rfl⟩

theorem exchange_conveys {access : Access} {ask : Ask}
    (hnews : (w.exchange access ask).1.news = []) : Conveys [] [(w.exchange access ask).1] := by
  obtain ⟨htold, hscript⟩ := exchange_mute w access ask
  exact ⟨by simpa [Exchanges.news] using hnews, htold, hscript⟩

theorem send_chats {α : Type} {c : StoreCall} {action : StoreAction α} {f : α → Answer}
    {ask : Ask} (h : Asking c action f (fun _ => []) ask) (w : Host) (access : Access) :
    Chats [] w (w.send access c action).2 := by
  have hsends := send_sends h w access
  have htalks := Talks.exchanged w access ask
  rw [hsends.host] at htalks
  exact ⟨_, htalks, exchange_conveys hsends.silent⟩

theorem chats_holdsOfLookups : HoldsOfLookups (Chats []) where
  refl := .refl
  trans := .trans
  request w access r := send_chats (request_asking r) w access
  count _ _ _ _ := chats_of_eq rfl rfl rfl
  gauge _ _ _ := chats_of_eq rfl rfl rfl
  objects _ _ _ _ _ := chats_of_eq rfl rfl rfl

/-! ### Watchers -/

theorem Reacts.chats {notice : Notice} {log : Exchanges} {reacted : Reacted}
    (h : Reacts w notice log reacted w') (hconveys : Conveys [] log) :
    Chats [.advance notice] w (w'.emit (.advanced notice reacted)) :=
  ⟨_, .advanced h, hconveys.telling _⟩

/-- A watcher that is told may call on the store, and nobody else is told. -/
theorem tellWatcher_chats (w : Host) (notice : Notice) :
    Chats [.advance notice] w (w.tellWatcher notice) := by
  unfold tellWatcher
  split
  next hkind => exact (Reacts.record hkind).chats Exchanges.conveys_nil
  next hkind =>
    have hsends := send_sends (asking_of_answering (f := .flag)
      (r := .watch notice.ledger notice.confirmed notice.watcher) rfl) w .planned
    have hchats := (Reacts.rearm hkind rfl hsends.answer).chats
      (exchange_conveys hsends.silent)
    rwa [hsends.host] at hchats
  next hkind =>
    have hsends := send_sends (asking_of_answering (f := .entry)
      (r := .confirmed notice.ledger) rfl) w .planned
    have hchats := (Reacts.read hkind rfl hsends.answer).chats
      (exchange_conveys hsends.silent)
    rwa [hsends.host] at hchats

theorem tellWatchers_chats (notices : List Notice) (w : Host) :
    Chats (notices.map .advance) w (notices.foldl tellWatcher w) := by
  induction notices generalizing w with
  | nil => exact .refl w
  | cons notice notices ih => exact (tellWatcher_chats w notice).trans (ih _)

/-! ### Subscribers -/

/-- Whether a subscriber can be told. A cache that is gone has nothing to forget. -/
def hears (w : Host) : Subscriber → Bool
  | .cache _ => true
  | .observer o => w.observers.holds o

/-- A subscriber that is told may look ledgers up, and nobody else is told. -/
theorem tellSubscriber_chats (l : LedgerId) (wasFenced : Bool) (w : Host) (who : Subscriber) :
    Chats (if w.hears who then [.deletion who l wasFenced] else []) w
      (tellSubscriber l wasFenced w who) := by
  cases who with
  | cache c => exact ⟨_, .dropped w c l wasFenced, rfl, rfl, rfl⟩
  | observer o =>
      unfold tellSubscriber
      split
      next hhears =>
        obtain ⟨observer, hobserver⟩ := Option.isSome_iff_exists.mp hhears
        simp only [hobserver]
        unfold tellObserver
        dsimp only
        split
        next =>
          exact ⟨_, .deleted hobserver l wasFenced none (.quiet rfl rfl rfl),
            Exchanges.conveys_nil.telling _⟩
        next r _ =>
          obtain ⟨log, htalks, hconveys⟩ :=
            chats_holdsOfLookups.openWritable w r.cache l r.key r.replay
          exact ⟨_, .deleted hobserver l wasFenced _ htalks, hconveys.telling _⟩
      next hgone =>
        have hnone : w.observers.get? o = none := by simpa [hears, Arena.holds] using hgone
        simp only [hnone]
        exact .refl w

/-- Subscribers are told one after the other, each with the calls that it makes. -/
theorem tellSubscribers_chats (l : LedgerId) (wasFenced : Bool) {subscribers : List Subscriber}
    {w : Host} (hhear : ∀ who ∈ subscribers, w.hears who = true) :
    Chats (subscribers.map (.deletion · l wasFenced)) w
      (subscribers.foldl (tellSubscriber l wasFenced) w) := by
  induction subscribers generalizing w with
  | nil => exact .refl w
  | cons who subscribers ih =>
      have hfirst := tellSubscriber_chats l wasFenced w who
      rw [if_pos (hhear who List.mem_cons_self)] at hfirst
      refine hfirst.trans (ih fun who' hmem => ?_)
      -- observers do not leave while others are told
      have hobservers := (tellSubscriber_tells w l wasFenced who).observers
      have hbefore := hhear who' (List.mem_cons_of_mem _ hmem)
      cases who' with
      | cache c => rfl
      | observer o => exact (congrArg (Arena.holds · o) hobservers).trans hbefore

/-! ### Calls that are news -/

/-- A call was made first, and then those were told who were to be told of it. -/
def Begins (w : Host) (access : Access) (ask : Ask) (w' : Host) : Prop :=
  ∃ rest, Talks w ((w.exchange access ask).1 :: rest) w' ∧
    Conveys (w.exchange access ask).1.news rest

theorem request_begins (w : Host) (access : Access) (r : Request) :
    Begins w access (.request r) (w.request access r).2 := by
  have hsends := send_sends (request_asking r) w access
  have htalks := Talks.exchanged w access (.request r)
  rw [hsends.host] at htalks
  exact ⟨[], htalks, hsends.silent ▸ Exchanges.conveys_nil⟩

/-- An entry begins with the store being asked to take it. -/
theorem append_begins (w : Host) (access : Access) (entry : Bytes) :
    Begins w access (.append entry) (w.append access entry).2 := by
  have hsends := send_sends (append_asking entry) w access
  have htalks := Talks.exchanged w access (.append entry)
  rw [hsends.host] at htalks
  have hnews := hsends.news
  unfold append
  split
  next hfailed =>
    rw [hfailed] at htalks hnews
    exact ⟨[], htalks, hnews ▸ Exchanges.conveys_nil⟩
  next id notices w₁ hstored =>
    rw [hstored] at htalks hnews
    obtain ⟨log, htold, hconveys⟩ := tellWatchers_chats notices w₁
    exact ⟨log, htalks.onward htold, hnews ▸ hconveys⟩

/-- A deletion begins with the store being asked for the removal. -/
theorem remove_begins (w : Host) (access : Access) (l : LedgerId) :
    Begins w access (.remove w.isPresent l) (w.remove access l).2 := by
  have hsends := send_sends (remove_asking w.isPresent l) w access
  have htalks := Talks.exchanged w access (.remove w.isPresent l)
  rw [hsends.host] at htalks
  have hnews := hsends.news
  unfold remove
  split
  next hfailed =>
    rw [hfailed] at htalks hnews
    exact ⟨[], htalks, hnews ▸ Exchanges.conveys_nil⟩
  next wasFenced subscribers w₁ hremoved =>
    have hhear : ∀ who ∈ subscribers, w₁.hears who = true := by
      intro who hmem
      obtain ⟨hact, honly⟩ := send_ok hremoved
      obtain ⟨-, -, hfilter, -⟩ := Store.remove_spec hact
      rw [hfilter] at hmem
      have hpresent := (List.mem_filter.mp hmem).2
      cases who with
      | cache c => rfl
      | observer o => exact (congrArg (Arena.holds · o) honly.observers).trans hpresent
    rw [hremoved] at htalks hnews
    obtain ⟨log, htold, hconveys⟩ := tellSubscribers_chats l wasFenced hhear
    exact ⟨log, htalks.onward htold, hnews ▸ hconveys⟩

/-! ### Operations -/

/-- Calls were made, those who were to be told were told, and nothing was arranged. -/
def Speaks (w w' : Host) : Prop :=
  ∃ log : Exchanges, Talks w log w' ∧ log.told = log.news ∧ log.script = []

theorem Chats.speaks (h : Chats [] w w') : Speaks w w' := by
  obtain ⟨log, htalks, hconveys⟩ := h
  exact ⟨log, htalks, hconveys.told.trans hconveys.news.symm, hconveys.script⟩

/-- A call that was begun says whom to tell, and they were told. -/
theorem Begins.speaks {access : Access} {ask : Ask} (h : Begins w access ask w') :
    ∃ log : Exchanges, Talks w log w' ∧ log.told = log.news ∧ log.script = [] ∧
      log.head? = some (w.exchange access ask).1 := by
  obtain ⟨rest, htalks, hconveys⟩ := h
  obtain ⟨htold, hscript⟩ := exchange_mute w access ask
  refine ⟨_, htalks, ?_, ?_, rfl⟩
  · rw [← List.singleton_append, Exchanges.told_append, Exchanges.news_append, htold,
      hconveys.told, hconveys.news]
    simp [Exchanges.news]
  · rw [← List.singleton_append, Exchanges.script_append, hscript, hconveys.script]
    rfl

theorem speaks_of_begins {access : Access} {ask : Ask} (h : Begins w access ask w') :
    Speaks w w' := by
  obtain ⟨log, htalks, htold, hscript, -⟩ := h.speaks
  exact ⟨log, htalks, htold, hscript⟩

theorem Speaks.trans (h : Speaks w w') (h' : Speaks w' w'') : Speaks w w'' := by
  obtain ⟨log, htalks, htold, hscript⟩ := h
  obtain ⟨log', htalks', htold', hscript'⟩ := h'
  exact ⟨log ++ log', htalks.onward htalks', by simp [htold, htold'], by simp [hscript, hscript']⟩

theorem speaks_holdsOfCalls : HoldsOfCalls Speaks where
  refl w := (Chats.refl w).speaks
  trans := .trans
  request w access r := speaks_of_begins (request_begins w access r)
  count w c n hc := (chats_holdsOfLookups.count w c n hc).speaks
  gauge w kind value := (chats_holdsOfLookups.gauge w kind value).speaks
  objects w handles readers caches now :=
    (chats_holdsOfLookups.objects w handles readers caches now).speaks
  append w access entry := speaks_of_begins (append_begins w access entry)
  remove w access l := speaks_of_begins (remove_begins w access l)

theorem emit_chats (w : Host) {e : Event} (he : e.reportsNews = false) : Chats [] w (w.emit e) :=
  chats_of_eq rfl rfl (by simp [emit, List.filter_append, he])

theorem fence_chats (w : Host) (l : LedgerId) : Chats [] w (w.call .fence (Store.fence l)).2 :=
  send_chats (asking_of_answering (f := .flag) (r := .fence l) rfl) w .planned

theorem chats_ignoresBooks : IgnoresBooks (Chats []) where
  trans := .trans
  books _ _ _ _ := chats_of_eq rfl rfl rfl

theorem chats_holdsOfFencing : HoldsOfFencing (Chats []) :=
  chats_ignoresBooks.holdsOfFencing (fun _ _ => chats_of_eq rfl rfl rfl)
    (fun _ _ => chats_of_eq rfl rfl rfl) fence_chats (fun w _ _ => emit_chats w rfl)
    fun w _ => emit_chats w rfl

theorem subscribe_chats (w : Host) (who : Subscriber) : Chats [] w (w.subscribe who) :=
  ⟨_, .exchanged w .direct (.subscribe who), rfl, rfl, rfl⟩

/-- Whatever arranges no faults makes calls and tells whom they concern. -/
theorem perform_speaks (w : Host) {op : Op} (harranges : op.arranges = []) :
    Speaks w (w.perform op).2 := by
  have hsame : Speaks w w := speaks_holdsOfCalls.refl w
  cases op with
  | observe observer =>
      have hadded : Chats [] w { w with observers := w.observers.add observer } :=
        chats_of_eq rfl rfl rfl
      exact (hadded.trans (subscribe_chats _ _)).speaks
  | createCache config =>
      have hadded : Chats [] w { w with caches := w.caches.add (.create config) } :=
        chats_of_eq rfl rfl rfl
      exact (hadded.trans (subscribe_chats _ _)).speaks
  | unobserve | releaseCache =>
      refine whenHeld_host hsame (Chats.speaks ?_)
      exact chats_of_eq rfl rfl rfl
  | raise | takeInterrupt | startWorker =>
      refine Chats.speaks ?_
      exact chats_of_eq rfl rfl rfl
  | planFault | clearFaults => cases harranges
  | request | append | remove | openWritable | openReader | tellCache | createHandle
  | createReader | use => exact speaks_holdsOfCalls.perform w rfl
  | _ => exact (chats_holdsOfFencing.perform (fun _ _ => chats_of_eq rfl rfl rfl) w rfl).speaks

/-! ### Deeds -/

/-- Do something. -/
def carryOut (w : Host) : Deed → Host
  | .happen next => w.happen next
  | .store access entry => (w.send access .append (Store.append entry)).2
  | .notify notice => w.tellWatcher notice

/-- The host after one deed was done after another. -/
def carryOutAll (w : Host) (deeds : List Deed) : Host := deeds.foldl carryOut w

/-- What an operation asks the store for, if it is one call on the store. -/
def call? (w : Host) : Op → Option (Access × Ask)
  | .request access r => some (access, .request r)
  | .append access entry => some (access, .append entry)
  | .remove access l => some (access, .remove w.isPresent l)
  | _ => none

/-- What a deed asks the store for, if it is one call on the store. -/
def asked? (w : Host) : Deed → Option (Access × Ask)
  | .happen (.act op) => w.call? op
  | .happen (.remove access l) => some (access, .remove w.isPresent l)
  | .store access entry => some (access, .append entry)
  | _ => none

/-- How a deed is answered, if somebody gets an answer. -/
def answer? (w : Host) : Deed → Option (Except Failure Answer)
  | .happen (.act op) => some (w.perform op).1
  | _ => none

/-- Who is told of what in a deed, by what is news in it. -/
def toldIn (w : Host) (news : List News) : Deed → List News
  | .happen (.remove ..) | .store .. => []
  | .happen (.tell who l wasFenced) =>
      if w.hears who then [.deletion who l wasFenced] else []
  | .notify notice => [.advance notice]
  | _ => news

/-- The traffic that a deed causes. What the deed arranges is arranged, and who is to be
told is told. One call on the store comes first, and an operation that is one answers as
the call was answered. -/
structure Causes (w : Host) (deed : Deed) (log : Exchanges) : Prop where
  talks : Talks w log (w.carryOut deed)
  script : log.script = deed.arranges
  told : log.told = w.toldIn log.news deed
  begins : ∀ access ask, w.asked? deed = some (access, ask) →
    log.head? = some (w.exchange access ask).1
  answers : ∀ access ask answer, w.asked? deed = some (access, ask) →
    w.answer? deed = some answer →
    (w.exchange access ask).1.answer?.map (Except.mapError Failure.store) = some answer

/-- The traffic that a list of deeds causes, one deed after another. -/
def CausesAll : Host → List Deed → Exchanges → Prop
  | _, [], log => log = []
  | w, deed :: deeds, log => ∃ here later, log = here ++ later ∧ w.Causes deed here ∧
      (w.carryOut deed).CausesAll deeds later

theorem answer_eq {ε α : Type} (wrap : ε → Failure) (f : α → Answer)
    (r : Except ε α × Host) : (answer wrap f r).1 = (r.1.map f).mapError wrap := by
  rcases r with ⟨e | a, w⟩ <;> rfl

theorem request_answer (w : Host) (access : Access) (r : Request) :
    (w.exchange access (.request r)).1.answer?.map (Except.mapError Failure.store) =
      some (w.perform (.request access r)).1 := by
  rw [(send_sends (request_asking r) w access).answer]
  exact congrArg some (answer_eq _ _ _).symm

/-- An entry is answered as the store, or the fault in its place, answered the call. -/
theorem append_answer (w : Host) (access : Access) (entry : Bytes) :
    (w.exchange access (.append entry)).1.answer?.map (Except.mapError Failure.store) =
      some (w.perform (.append access entry)).1 := by
  rw [(send_sends (append_asking entry) w access).answer]
  change _ = some (answer .store .entry (w.append access entry)).1
  rw [answer_eq]
  unfold append
  rcases w.send access .append (Store.append entry) with ⟨e | stored, w₁⟩ <;> rfl

/-- A deletion is answered as the store, or the fault in its place, answered the call. -/
theorem remove_answer (w : Host) (access : Access) (l : LedgerId) :
    (w.exchange access (.remove w.isPresent l)).1.answer?.map (Except.mapError Failure.store) =
      some (w.perform (.remove access l)).1 := by
  rw [(send_sends (remove_asking w.isPresent l) w access).answer]
  change _ = some (answer .store (fun _ => .done) (w.remove access l)).1
  rw [answer_eq]
  unfold remove
  rcases w.send access .remove (Store.remove w.isPresent l) with ⟨e | removed, w₁⟩ <;> rfl

variable {op : Op}

/-- An operation that is one call on the store begins with the call. -/
theorem Begins.causes {access : Access} {ask : Ask}
    (h : Begins w access ask (w.perform op).2) (hcall : w.call? op = some (access, ask))
    (harranges : op.arranges = [])
    (hanswer : (w.exchange access ask).1.answer?.map (Except.mapError Failure.store) =
      some (w.perform op).1) : ∃ log, w.Causes (.happen (.act op)) log := by
  obtain ⟨log, htalks, htold, hscript, hhead⟩ := h.speaks
  refine ⟨log, htalks, hscript.trans harranges.symm, htold, ?_, ?_⟩
  · intro access' ask' hasked
    cases hcall.symm.trans hasked
    exact hhead
  · rintro access' ask' _ hasked ⟨⟩
    cases hcall.symm.trans hasked
    exact hanswer

/-- All that is exchanged in an operation that is no call on the store is caused by it. -/
theorem Talks.causes {log : Exchanges} (h : Talks w log (w.perform op).2)
    (hcall : w.call? op = none) (hscript : log.script = op.arranges)
    (htold : log.told = log.news) : w.Causes (.happen (.act op)) log := by
  refine ⟨h, hscript, htold, ?_, ?_⟩
  · intro access ask hasked
    cases hcall.symm.trans hasked
  · intro access ask _ hasked
    cases hcall.symm.trans hasked

theorem Speaks.causes (h : Speaks w (w.perform op).2) (hcall : w.call? op = none)
    (harranges : op.arranges = []) : ∃ log, w.Causes (.happen (.act op)) log := by
  obtain ⟨log, htalks, htold, hscript⟩ := h
  exact ⟨log, htalks.causes hcall (hscript.trans harranges.symm) htold⟩

/-- Every operation has a log of traffic that says which faults it arranged and whom it
told. -/
theorem perform_causes (w : Host) (op : Op) : ∃ log, w.Causes (.happen (.act op)) log := by
  cases op with
  | request access r =>
      have hbegins : Begins w access (.request r) (w.perform (.request access r)).2 :=
        (answer_host _ _ _).symm ▸ request_begins w access r
      exact hbegins.causes rfl rfl (request_answer w access r)
  | append access entry =>
      have hbegins : Begins w access (.append entry) (w.perform (.append access entry)).2 :=
        (answer_host _ _ _).symm ▸ append_begins w access entry
      exact hbegins.causes rfl rfl (append_answer w access entry)
  | remove access l =>
      have hbegins : Begins w access (.remove w.isPresent l) (w.perform (.remove access l)).2 :=
        (answer_host _ _ _).symm ▸ remove_begins w access l
      exact hbegins.causes rfl rfl (remove_answer w access l)
  | planFault c fault => exact ⟨_, (Talks.armed w c fault).causes rfl rfl rfl⟩
  | clearFaults => exact ⟨_, (Talks.cleared w).causes rfl rfl rfl⟩
  | _ => exact (perform_speaks w rfl).causes rfl rfl

/-- A call on the store whose news nobody is told yet is all that its step exchanges. -/
theorem send_causes {α : Type} {c : StoreCall} {action : StoreAction α} {f : α → Answer}
    {news : α → List News} {access : Access} {ask : Ask} {deed : Deed}
    (h : Asking c action f news ask) (hcarried : w.carryOut deed = (w.send access c action).2)
    (hasked : w.asked? deed = some (access, ask)) (harranges : deed.arranges = [])
    (htoldIn : ∀ news, w.toldIn news deed = []) (hanswer : w.answer? deed = none) :
    ∃ log, w.Causes deed log := by
  obtain ⟨htold, hscript⟩ := exchange_mute w access ask
  refine ⟨[(w.exchange access ask).1], ?_, hscript.trans harranges.symm,
    htold.trans (htoldIn _).symm, ?_, ?_⟩
  · rw [hcarried, ← (send_sends h w access).host]
    exact .exchanged w access ask
  · intro access' ask' hasked'
    cases hasked.symm.trans hasked'
    rfl
  · intro _ _ answer _ hanswer'
    cases hanswer.symm.trans hanswer'

/-- A step that is no call on the store exchanges what those do whom it tells. -/
theorem Chats.causes {deed : Deed} {told : List News} (h : Chats told w (w.carryOut deed))
    (hasked : w.asked? deed = none) (harranges : deed.arranges = [])
    (htoldIn : w.toldIn [] deed = told) : ∃ log, w.Causes deed log := by
  obtain ⟨log, htalks, hconveys⟩ := h
  refine ⟨log, htalks, hconveys.script.trans harranges.symm, ?_, ?_, ?_⟩
  · rw [hconveys.news, htoldIn, hconveys.told]
  · intro access ask hasked'
    cases hasked.symm.trans hasked'
  · intro access ask _ hasked'
    cases hasked.symm.trans hasked'

/-- So does everything else that may be done between the steps of others. -/
theorem carryOut_causes (w : Host) (deed : Deed) : ∃ log, w.Causes deed log := by
  cases deed with
  | store access entry => exact send_causes (append_asking entry) rfl rfl rfl (fun _ => rfl) rfl
  | notify notice => exact (tellWatcher_chats w notice).causes rfl rfl rfl
  | happen next =>
      cases next with
      | act op => exact perform_causes w op
      | remove access l =>
          exact send_causes (remove_asking w.isPresent l) rfl rfl rfl (fun _ => rfl) rfl
      | tell who l wasFenced =>
          exact (tellSubscriber_chats l wasFenced w who).causes rfl rfl rfl
      | decide h => exact (chats_holdsOfFencing.decide w h).causes rfl rfl rfl
      | handOn path t h o =>
          have hsubmits := chats_holdsOfFencing.submissions
          exact (hsubmits.submitMarker (hsubmits.submit path) w t h o).causes rfl rfl rfl
      | subscribe who =>
          have hchats : Chats [] w (w.happen (.subscribe who)) := by
            unfold happen
            dsimp only
            split
            next => exact subscribe_chats w who
            next => exact .refl w
          exact hchats.causes rfl rfl rfl
      | pass nanos =>
          have hchats : Chats [] w (w.happen (.pass nanos)) := chats_of_eq rfl rfl rfl
          exact hchats.causes rfl rfl rfl

/-- Whatever is done on a host, its traffic accounts for what the store holds. -/
theorem carryOutAll_causes (w : Host) (deeds : List Deed) :
    ∃ log, w.CausesAll deeds log ∧ Accords w log (w.carryOutAll deeds) := by
  induction deeds generalizing w with
  | nil => exact ⟨[], rfl, accords_of_quiet rfl rfl⟩
  | cons deed deeds ih =>
      obtain ⟨here, hhere⟩ := carryOut_causes w deed
      obtain ⟨later, hlater, haccords⟩ := ih (w.carryOut deed)
      exact ⟨here ++ later, ⟨here, later, rfl, hhere, hlater⟩, hhere.talks.accords.trans haccords⟩

/-- A host plans faults, and none was planned or met before. Whatever is done on it from
then on, the store holds what a store without faults holds that gets only the calls that
did not fail, in the order in which they were made, and responds to each of them as that
one does, with the same news. A call fails exactly if the fault that stands for its kind
answers it, and every call is counted. -/
theorem faulty_store_refines_plain {w : Host} (hfaults : w.faults = some .empty)
    (deeds : List Deed) : ∃ log : Exchanges, w.CausesAll deeds log ∧
      (w.carryOutAll deeds).store = w.store.serveAll log.asks ∧
      log.responses = w.store.responses log.asks ∧
      ∃ plan, (w.carryOutAll deeds).faults = some plan ∧ FaultPlan.Heeds log.steps plan := by
  obtain ⟨log, hcauses, haccords⟩ := carryOutAll_causes w deeds
  obtain ⟨plan, hplan, hfollows⟩ := haccords.plan _ hfaults
  exact ⟨log, hcauses, haccords.store, haccords.responses, plan, hplan,
    FaultPlan.heeds_of_follows hfollows⟩

/-- Fencing fails twice, and waiting always, until the faults are cleared. A watcher tries
to wait again while that fails, and an observer has a deleted ledger created anew. -/
def harassed : List Deed :=
  [.happen (.act (.request .planned (.bindKey ⟨1⟩ [0x6b]))),
    .happen (.act (.createCache .standard)),
    .happen (.act (.observe ⟨"a", some ⟨0, [0x6b], false⟩⟩)),
    .happen (.act (.planFault .fence ⟨some 2, .io "disk gone"⟩)),
    .happen (.act (.request .planned (.fence ⟨1⟩))),
    .happen (.act (.request .planned (.watch ⟨1⟩ .unset ⟨"w", .rearm⟩))),
    .happen (.act (.planFault .watch ⟨none, .io "disk gone"⟩)),
    .happen (.act (.append .planned (Entry.encode ⟨1⟩ ⟨0⟩ ⟨0⟩ []))),
    .happen (.act (.request .planned (.fence ⟨1⟩))),
    .happen (.act (.request .planned (.fence ⟨1⟩))),
    .happen (.act (.planFault .key ⟨some 0, .io "disk gone"⟩)),
    .happen (.act (.remove .planned ⟨1⟩)),
    .happen (.act .clearFaults),
    .happen (.act (.request .planned (.watch ⟨1⟩ .unset ⟨"w", .rearm⟩)))]

/-- Three calls are made to fence and three to wait, one of them by the watcher when it is
told. The store holds what it was asked for all the same. -/
theorem harassed_store_serves :
    (start (some .empty)).faults = some .empty ∧ ∃ log : Exchanges,
      ((start (some .empty)).carryOutAll harassed).store = Store.empty.serveAll log.asks ∧
      log.steps.countP (FaultStep.calls .fence) = 3 ∧
      log.steps.countP (FaultStep.calls .watch) = 3 := by
  refine ⟨rfl, ?_⟩
  obtain ⟨log, -, hstore, -, plan, hplan, hheeds⟩ :=
    faulty_store_refines_plain (w := start (some .empty)) rfl harassed
  have hcounts : ((start (some .empty)).carryOutAll harassed).faults.map
      (fun plan => (plan.count .fence, plan.count .watch)) = some (3, 3) := by
    decide
  rw [hplan] at hcounts
  obtain ⟨hfence, hwatch⟩ := Prod.mk.inj (Option.some.inj hcounts)
  exact ⟨log, hstore, (hheeds.counted .fence).symm.trans hfence,
    (hheeds.counted .watch).symm.trans hwatch⟩

end Host

end FencedLedger
