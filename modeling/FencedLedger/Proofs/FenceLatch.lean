import FencedLedger.Proofs.DeletionNotices
import FencedLedger.Proofs.KeptBits

/-!
# One fence call wins

The fenced bit of a ledger is a latch. Requests to the store, calls on handles, durable
fence calls and journals on the way of an entry may all fence a ledger, and planned faults
may keep any of these calls from the store. Of those that the store answers between the
creation of a ledger and its removal, the first one finds the bit clear and sets it, and
all others find it set. So the bit says whether there was such a call, and at most one
durable call is the first to fence. Durable calls are counted on their paths, so no call
is left out of the account. The first to fence need not be the one whose marker becomes
durable.
-/

namespace FencedLedger

/-- A fence call that the store answered. -/
structure FencingCall where
  ledger : LedgerId
  /-- Whether the call set the bit, by the answer of the store. -/
  news : Bool
  /-- The path of a durable call. -/
  path : Option FencePath
  deriving DecidableEq, Repr

/-- What may happen to the fenced bit of a ledger. -/
inductive BitMark where
  | fenced (call : FencingCall)
  | removed (ledger : LedgerId)
  deriving DecidableEq, Repr

namespace BitMark

/-- The ledger that a mark is about. -/
def ledger : BitMark → LedgerId
  | .fenced call => call.ledger
  | .removed l => l

/-- The path of the durable call that a mark is about. -/
def path? : BitMark → Option FencePath
  | .fenced call => call.path
  | .removed _ => none

/-- The number of durable calls on a path. -/
def countOn (path : FencePath) (marks : List BitMark) : Nat :=
  marks.countP fun mark => decide (mark.path? = some path)

/-- The fence calls on a ledger since it was last removed, with a mark taken into
account. -/
def addTo (l : LedgerId) (calls : List FencingCall) (mark : BitMark) : List FencingCall :=
  if mark.ledger = l then
    match mark with
    | .fenced call => calls ++ [call]
    | .removed _ => []
  else calls

/-- The fence calls on a ledger since it was last removed, oldest first. -/
def callsOn (l : LedgerId) (marks : List BitMark) : List FencingCall := marks.foldl (addTo l) []

/-- What is marked of other ledgers is no call on this one. -/
theorem foldl_addTo_of_ne {l : LedgerId} {marks : List BitMark}
    (hmarks : ∀ mark ∈ marks, mark.ledger ≠ l) (calls : List FencingCall) :
    marks.foldl (addTo l) calls = calls := by
  induction marks with
  | nil => rfl
  | cons mark marks ih =>
      have hfirst : addTo l calls mark = calls := if_neg (hmarks mark List.mem_cons_self)
      rw [List.foldl_cons, hfirst]
      exact ih fun mark hmark => hmarks mark (List.mem_cons_of_mem _ hmark)

end BitMark

namespace Host

variable {w w' w'' : Host} {l : LedgerId}

/-! ### The calls that reach the store -/

/-- The mark of the decision on a durable fence call. -/
def decisionMarks (w : Host) (h : Nat) : List BitMark :=
  match (w.call .fence (Store.fence (w.handleAt h).ledger)).1, (w.decideFence h).1 with
  | .ok news, .ok decision => [.fenced ⟨(w.handleAt h).ledger, news, some decision.path⟩]
  | _, _ => []

/-- The marks of submissions of entries. -/
abbrev SubmitMarks := Host → Thread → Bytes → Bool → Callback → List BitMark

/-- The marks of the submission of a fence marker. -/
def markerMarks (w : Host) (marks : SubmitMarks) (t : Thread) (h o : Nat) : List BitMark :=
  marks w t (Entry.fenceMarker (w.handleAt h).ledger) (w.handleAt h).ackBeforeSync (.fence h o)

/-- The marks of a durable fence call on a handle. -/
def durableMarks (w : Host) (marks : SubmitMarks) (t : Thread) : HandleRef → List BitMark
  | .reader _ => []
  | .writable h =>
      w.decisionMarks h ++
        match w.decideFence h with
        | (.error _, _) => []
        | (.ok decision, w') =>
            if appends decision.path then w'.markerMarks marks t h decision.outcome else []

/-- The marks of a submission on a path. -/
def submitMarks : JournalPath → SubmitMarks
  | .journal _ | .reportThenRefuse _ _ => fun _ _ _ _ _ => []
  | .refencing handle inner => fun w t entry ackBeforeSync callback =>
      let (answer, w') := w.fenceThrough (submit inner) t handle
      w.durableMarks (submitMarks inner) t handle ++
        submitMarks inner (w'.emit (.refenced (answer.map w'.outcomeAt))) t entry ackBeforeSync
          callback

/-- The mark of a fence request, as its caller is answered. -/
def requestMarks (w : Host) (op : Op) : List BitMark :=
  match w.sent? op, (w.perform op).1 with
  | some (.fence l), .ok (.flag news) => [.fenced ⟨l, news, none⟩]
  | _, _ => []

/-- The marks of an operation. -/
def opMarks (w : Host) : Op → List BitMark
  | .fence handle path t =>
      if w.knowsHandle handle && w.knowsPath path then
        w.durableMarks (submitMarks path) t handle
      else []
  | .log path t entry ackBeforeSync label =>
      if w.knowsPath path then submitMarks path w t entry ackBeforeSync (.report label) else []
  | .remove access l => (w.removed? (.remove access l)).toList.map .removed
  | op => w.requestMarks op

/-- The marks of a happening. -/
def marks (w : Host) : Happening → List BitMark
  | .act op => w.opMarks op
  | .remove access l => if (w.removal access l).1.isOk then [.removed l] else []
  | .decide h => w.decisionMarks h
  | .handOn path t h o => w.markerMarks (submitMarks path) t h o
  | .subscribe _ | .tell .. | .pass _ => []

/-- The marks of a course, oldest first. -/
def marksOver : Host → List Happening → List BitMark
  | _, [] => []
  | w, first :: course => w.marks first ++ (w.happen first).marksOver course

/-! ### The latch -/

/-- The calls on a ledger set its bit with the first of them. -/
structure Latched (l : LedgerId) (calls : List FencingCall) (w : Host) : Prop where
  ledger : ∀ call ∈ calls, call.ledger = l
  news_iff : ∀ i call, calls[i]? = some call → (call.news = true ↔ i = 0)
  first_iff : ∀ call ∈ calls, ∀ path, call.path = some path →
    (path = .first ↔ call.news = true)
  fenced : w.store.holdsFenced l = !calls.isEmpty

/-- The marks account for what happened to the fenced bits, and for the durable calls that
were counted. -/
structure Latches (marks : List BitMark) (w w' : Host) : Prop where
  bits : ∀ l calls, Latched l calls w → Latched l (marks.foldl (BitMark.addTo l) calls) w'
  attempts : ∀ path, w'.metrics.count (.fenceAttempts path) =
    w.metrics.count (.fenceAttempts path) + BitMark.countOn path marks

theorem start_latched (faults : Option FaultPlan) (l : LedgerId) :
    Latched l [] (start faults) :=
  ⟨by simp, by simp, by simp, rfl⟩

theorem Latched.ofBit {calls : List FencingCall} (h : Latched l calls w)
    (hbit : w'.store.holdsFenced l = w.store.holdsFenced l) : Latched l calls w' :=
  ⟨h.ledger, h.news_iff, h.first_iff, hbit.trans h.fenced⟩

theorem Latches.trans {marks marks' : List BitMark} (h : Latches marks w w')
    (h' : Latches marks' w' w'') : Latches (marks ++ marks') w w'' where
  bits l calls hlatched := by
    rw [List.foldl_append]
    exact h'.bits l _ (h.bits l calls hlatched)
  attempts path := by
    rw [h'.attempts, h.attempts, BitMark.countOn, BitMark.countOn, BitMark.countOn,
      List.countP_append, Nat.add_assoc]

theorem latches_of_kept (hbits : KeepsBits w w') (hattempts : KeepsAttempts w w') :
    Latches [] w w' :=
  ⟨fun l _ hlatched => hlatched.ofBit (hbits l), hattempts⟩

theorem Aside.latches (h : Aside w w') : Latches [] w w' :=
  latches_of_kept (keepsBits_of_store h.store) h.attempts

theorem Latches.thenAside {marks : List BitMark} (h : Latches marks w w')
    (haside : Aside w' w'') : Latches marks w w'' := by
  have hboth := h.trans haside.latches
  rwa [List.append_nil] at hboth

/-- A ledger that is removed has had no fence call. -/
theorem latches_of_removed (hattempts : KeepsAttempts w w')
    (hbits : ∀ l', w'.store.holdsFenced l' = if l = l' then false else w.store.holdsFenced l') :
    Latches [.removed l] w w' := by
  refine ⟨fun l' calls hlatched => ?_, hattempts⟩
  change Latched l' (BitMark.addTo l' calls (.removed l)) w'
  unfold BitMark.addTo
  split
  next heq =>
    have hclear : w'.store.holdsFenced l' = false := (hbits l').trans (if_pos heq)
    exact ⟨by simp, by simp, by simp, hclear⟩
  next hne => exact hlatched.ofBit ((hbits l').trans (if_neg hne))

/-- A call that the store answered is the next one of its ledger's lifetime. -/
theorem Latched.add {calls : List FencingCall} {call : FencingCall} (h : Latched l calls w)
    (hledger : call.ledger = l) (hnews : call.news = calls.isEmpty)
    (hpath : ∀ path, call.path = some path → (path = .first ↔ call.news = true))
    (hbit : w'.store.holdsFenced l = true) : Latched l (calls ++ [call]) w' where
  ledger := by simpa [or_imp, forall_and, hledger] using h.ledger
  news_iff i call' hcall := by
    rw [List.getElem?_append] at hcall
    split at hcall
    next => exact h.news_iff i call' hcall
    next hlast =>
      -- the call is the last one, and the first one only if there was none before it
      obtain ⟨hi, rfl⟩ : i = calls.length ∧ call' = call := by grind
      rw [hnews, hi, List.isEmpty_iff, List.length_eq_zero_iff]
  first_iff call' hcall path hp := by
    rcases List.mem_append.mp hcall with hbefore | hlast
    · exact h.first_iff call' hbefore path hp
    · obtain rfl := List.mem_singleton.mp hlast
      exact hpath path hp
  fenced := by simp [hbit]

/-- A fence call that the store answers is the first one exactly if the bit was clear. -/
theorem latches_of_fenced {news : Bool} {path : Option FencePath} {s : Store}
    (hact : Store.fence l w.store = .ok (news, s)) (hstore : w'.store = s)
    (hattempts : ∀ p, w'.metrics.count (.fenceAttempts p) =
      w.metrics.count (.fenceAttempts p) + if path = some p then 1 else 0)
    (hpath : ∀ p, path = some p → (p = .first ↔ news = true)) :
    Latches [.fenced ⟨l, news, path⟩] w w' := by
  refine ⟨fun l' calls hlatched => ?_, fun p => ?_⟩
  · have hbits := Store.fence_bits hact l'
    rw [← hstore] at hbits
    change Latched l' (BitMark.addTo l' calls (.fenced ⟨l, news, path⟩)) w'
    unfold BitMark.addTo
    split
    next heq =>
      obtain rfl : l = l' := heq
      refine hlatched.add rfl ?_ hpath (by simpa using hbits)
      rw [(Store.fence_spec hact).2.1, hlatched.fenced, Bool.not_not]
    next hne => exact hlatched.ofBit (hbits.trans (if_neg hne))
  · rw [hattempts p, BitMark.countOn, List.countP_singleton]
    by_cases hp : path = some p <;> simp [BitMark.path?, hp]

/-! ### Durable calls -/

theorem add_attempts {path : FencePath} (hmetrics : w'.metrics =
      w.metrics.add (.fenceAttempts path) 1) (p : FencePath) :
    w'.metrics.count (.fenceAttempts p) =
      w.metrics.count (.fenceAttempts p) + if some path = some p then 1 else 0 := by
  rw [hmetrics, Metrics.count_add]
  simp only [Counter.fenceAttempts.injEq, Option.some.injEq]

/-- A call on a fenced ledger is counted on its path, which is not the first. -/
theorem decideAgain_spec (w : Host) (h : Nat) :
    (w.decideAgain h).2.store = w.store ∧ (w.decideAgain h).1.path ≠ .first ∧
      (w.decideAgain h).2.metrics =
        w.metrics.add (.fenceAttempts (w.decideAgain h).1.path) 1 := by
  unfold decideAgain
  split
  next => exact ⟨rfl, nofun, rfl⟩
  next => split <;> exact ⟨rfl, nofun, rfl⟩

/-- A durable call takes the first path exactly if the store has news for it. -/
theorem decideFence_latches (w : Host) (h : Nat) :
    Latches (w.decisionMarks h) w (w.decideFence h).2 := by
  have hcalled := call_works (fun _ => false) (Store.fence_isAsk (w.handleAt h).ledger) w .fence
  unfold decisionMarks decideFence
  rcases hcall : w.call .fence (Store.fence (w.handleAt h).ledger) with ⟨e | news, w₁⟩
  · rw [hcall] at hcalled
    exact Aside.latches ⟨(call_error hcall).store, hcalled.keepsAttempts⟩
  · rw [hcall] at hcalled
    obtain ⟨hact, -⟩ := call_ok hcall
    cases news with
    | true =>
        refine latches_of_fenced hact rfl (fun p => ?_) (by simp [openAppend])
        rw [← hcalled.keepsAttempts]
        exact add_attempts rfl p
    | false =>
        obtain ⟨hstore, hlater, hmetrics⟩ := w₁.decideAgain_spec h
        refine latches_of_fenced hact hstore (fun p => ?_) fun path hpath => ?_
        · rw [← hcalled.keepsAttempts]
          exact add_attempts hmetrics p
        · obtain rfl := Option.some.inj hpath
          exact iff_of_false hlater Bool.false_ne_true

section Submit

variable {s : Submit} {marks : SubmitMarks}
  (hs : ∀ w t entry ack callback,
    Latches (marks w t entry ack callback) w (s w t entry ack callback).2)

include hs

/-- What a journal does on the way of a marker is all that submitting it latches. -/
theorem submitMarker_latches (w : Host) (t : Thread) (h o : Nat) :
    Latches (w.markerMarks marks t h o) w (w.submitMarker s t h o) := by
  have hsubmit := hs w t (Entry.fenceMarker (w.handleAt h).ledger) (w.handleAt h).ackBeforeSync
    (.fence h o)
  unfold submitMarker
  dsimp only
  split
  next htaken => rwa [htaken] at hsubmit
  next cause w₁ hrefused =>
    rw [hrefused] at hsubmit
    exact hsubmit.thenAside (refuseMarker_aside w₁ t o cause)

/-- A durable call latches what it decides and what its marker meets on the way. -/
theorem fenceThrough_latches (w : Host) (t : Thread) (handle : HandleRef) :
    Latches (w.durableMarks marks t handle) w (w.fenceThrough s t handle).2 := by
  cases handle with
  | reader r => exact (Aside.refl _).latches
  | writable h =>
      have hdecided := decideFence_latches w h
      change Latches (w.decisionMarks h ++ _) w (w.fenceWith s t h).2
      unfold fenceWith
      rcases hdecide : w.decideFence h with ⟨e | decision, w₁⟩
      · rw [hdecide] at hdecided
        exact hdecided.trans (Aside.refl _).latches
      · rw [hdecide] at hdecided
        refine hdecided.trans ?_
        dsimp only
        split
        next => exact submitMarker_latches hs w₁ t h decision.outcome
        next => exact (Aside.refl _).latches

end Submit

/-- A journal may fence on the way of an entry, and latches what those calls do. -/
theorem submit_latches (path : JournalPath) (w : Host) (t : Thread) (entry : Bytes) (ack : Bool)
    (callback : Callback) :
    Latches (submitMarks path w t entry ack callback) w
      (submit path w t entry ack callback).2 := by
  induction path generalizing w t entry ack callback with
  | journal id => exact (aside_holdsOfEnds.submitTo id w t entry ack callback).latches
  | reportThenRefuse code cause => exact (complete_aside w callback _).latches
  | refencing handle inner ih =>
      -- the handle on the way is fenced before the entry is handed on
      have hfenced := fenceThrough_latches ih w t handle
      refine Latches.trans (hfenced.thenAside ?_) (ih _ t entry ack callback)
      exact aside_of_eq rfl rfl

/-! ### Operations -/

theorem whenHeld_latches {marks : List BitMark} {held : Bool} {r : Except Failure Answer × Host}
    (h : Latches marks w r.2) :
    Latches (if held then marks else []) w (w.whenHeld held r).2 := by
  unfold whenHeld
  split
  next => exact h
  next => exact (Aside.refl _).latches

/-- A fence request sets the bit when the store answers it. -/
theorem fenceRequest_latches {op : Op} {access : Access} (hsent : w.sent? op = some (.fence l))
    (hhost : (w.perform op).2 = (w.request access (.fence l)).2)
    (hanswer : ∀ a, (w.perform op).1 = .ok a ↔ (w.request access (.fence l)).1 = .ok a) :
    Latches (w.requestMarks op) w (w.perform op).2 := by
  have hattempts :=
    (request_works (fun _ => false) w access (.fence l)).keepsAttempts
  unfold requestMarks
  rw [hsent, hhost]
  unfold request at hanswer hattempts ⊢
  rcases hsend : w.send access (Request.fence l).call (Request.fence l).action with ⟨e | a, w₁⟩
  · rw [hsend] at hanswer hattempts
    have haside : Aside w w₁ := ⟨(send_error hsend).store, hattempts⟩
    rcases hperform : (w.perform op).1 with e' | a
    · exact haside.latches
    · cases (hanswer a).mp hperform
  · rw [hsend] at hanswer hattempts
    rw [(hanswer a).mpr rfl]
    obtain ⟨hact, -⟩ := send_ok hsend
    obtain ⟨news, hfence, rfl⟩ := Store.answering_ok hact
    exact latches_of_fenced hfence rfl (fun p => by simpa using hattempts p) (by simp)

theorem requestMarks_of_sent {op : Op} (hsent : ∀ l, w.sent? op ≠ some (.fence l)) :
    w.requestMarks op = [] := by
  unfold requestMarks
  split
  next heq _ => exact absurd heq (hsent _)
  next => rfl

/-- Of what goes to the store, only a request to fence latches something. -/
theorem request_latches (w : Host) (op : Op) (h : op.callsStore = true) :
    Latches (w.requestMarks op) w (w.perform op).2 := by
  have hquiet : op.concernsFencing = false := by
    cases op with
    | request | append | use => rfl
    | _ => cases h
  have hattempts := w.perform_keepsAttempts (Or.inl hquiet)
  cases w.perform_consults h with
  | sends access r hsent host answer =>
      by_cases hfence : ∃ l, r = .fence l
      · obtain ⟨l, rfl⟩ := hfence
        exact fenceRequest_latches hsent host answer
      · have hr : ∀ l, r ≠ .fence l := fun l heq => hfence ⟨l, heq⟩
        rw [requestMarks_of_sent (by simpa [hsent] using hr)]
        refine latches_of_kept ?_ hattempts
        rw [host]
        exact request_keepsBits w access hr
  | submits access entry hsubmitted hsent host =>
      rw [requestMarks_of_sent (by simp [hsent])]
      refine latches_of_kept ?_ hattempts
      rw [host]
      exact append_keepsBits w access entry
  | stays hsent intact =>
      rw [requestMarks_of_sent (by simp [hsent])]
      refine latches_of_kept (keepsBits_of_store ?_) hattempts
      rw [intact.same]

/-- A deletion that succeeds ends the lifetime of its ledger. -/
theorem remove_latches (w : Host) (access : Access) (l : LedgerId) :
    Latches ((w.removed? (.remove access l)).toList.map .removed) w
      (w.remove access l).2 := by
  have hworks : Works (fun _ => true) w (w.remove access l).2 :=
    remove_works (fun _ _ _ _ _ => rfl) w access l
  have hattempts := hworks.keepsAttempts
  unfold removed?
  dsimp only
  rcases remove_cases w access l with ⟨⟨e, herror⟩, hidle⟩ |
    ⟨w₁, wasFenced, hok, -, hremoves, -, htold⟩
  · rw [herror]
    exact Aside.latches ⟨hidle.store, hattempts⟩
  · rw [hok]
    refine latches_of_removed hattempts fun l' => ?_
    rw [htold, (tellSubscribers_tells w₁ l wasFenced _).fenced, hremoves.fenced]

/-- Every operation latches what its marks say. -/
theorem perform_latches (w : Host) (op : Op) : Latches (w.opMarks op) w (w.perform op).2 := by
  cases op with
  | request access r => exact request_latches w (.request access r) rfl
  | append access entry => exact request_latches w (.append access entry) rfl
  | use handle call => exact request_latches w (.use handle call) rfl
  | remove access l => exact (answer_host _ _ _).symm ▸ remove_latches w access l
  | fence handle path t =>
      refine whenHeld_latches ?_
      rw [answer_host]
      exact fenceThrough_latches (submit_latches path) w t handle
  | log path t entry ack label =>
      refine whenHeld_latches ?_
      rw [answer_host]
      exact submit_latches path w t entry ack _
  | _ => exact latches_of_kept (perform_keepsBits w rfl) (perform_keepsAttempts w (Or.inr rfl))

/-- A removal clears the bit together with the ledger. -/
theorem removal_latches (w : Host) (access : Access) (l : LedgerId) :
    Latches (if (w.removal access l).1.isOk then [.removed l] else []) w
      (w.removal access l).2 := by
  have hattempts := (removal_silent w access l).keepsAttempts
  rcases hremoval : w.removal access l with ⟨e | ⟨wasFenced, subscribers⟩, w'⟩
  · rw [hremoval] at hattempts
    exact Aside.latches ⟨(removal_error hremoval).1, hattempts⟩
  · rw [hremoval] at hattempts
    exact latches_of_removed hattempts (removal_ok hremoval).2.1.fenced

/-- Whatever happens on a host, the marks say what became of every bit. -/
theorem happen_latches (w : Host) (next : Happening) :
    Latches (w.marks next) w (w.happen next) := by
  cases next with
  | act op => exact perform_latches w op
  | subscribe who =>
      change Latches [] w (if w.hasMet who then w.subscribe who else w)
      split
      next =>
        exact latches_of_kept (Store.keepsBits_of_ledgers rfl) (keepsAttempts_of_metrics rfl)
      next => exact (Aside.refl _).latches
  | remove access l => exact removal_latches w access l
  | tell who l wasFenced =>
      have hworks : Works (fun _ => true) w (tellSubscriber l wasFenced w who) :=
        (works_holdsOfLookups _).tellSubscriber (fun w _ _ _ _ _ => emit_works _ rfl w) w l
          wasFenced who
      exact latches_of_kept (tellSubscriber_tells w l wasFenced who).fenced hworks.keepsAttempts
  | decide h => exact decideFence_latches w h
  | handOn path t h o => exact submitMarker_latches (submit_latches path) w t h o
  | pass nanos =>
      exact latches_of_kept (Store.keepsBits_of_ledgers rfl) (keepsAttempts_of_metrics rfl)

theorem afterAll_latches (w : Host) (course : List Happening) :
    Latches (w.marksOver course) w (w.afterAll course) := by
  induction course generalizing w with
  | nil => exact (Aside.refl _).latches
  | cons first course ih => exact (happen_latches w first).trans (ih _)

/-! ### One winner in every lifetime -/

/-- No call but the first one has news. -/
theorem Latched.countP_first_le {calls : List FencingCall} (h : Latched l calls w) :
    calls.countP (fun call => decide (call.path = some .first)) ≤ 1 := by
  cases calls with
  | nil => exact Nat.zero_le 1
  | cons winner later =>
      have hlater : later.countP (fun call => decide (call.path = some .first)) = 0 := by
        rw [List.countP_eq_zero]
        intro call hcall hfirst
        obtain ⟨i, hi⟩ := List.mem_iff_getElem?.mp hcall
        have hnews := (h.first_iff call (List.mem_cons_of_mem _ hcall) .first
          (of_decide_eq_true hfirst)).mp rfl
        exact absurd ((h.news_iff (i + 1) call hi).mp hnews) (Nat.succ_ne_zero i)
      rw [List.countP_cons, hlater]
      split <;> simp

theorem isFenced_answer (hheld : w.store.ledgers.contains l = true) :
    (w.perform (.request .direct (.isFenced l))).1 = .ok (.flag (w.store.holdsFenced l)) := by
  obtain ⟨x, hx⟩ := Option.isSome_iff_exists.mp hheld
  unfold perform request send Host.ask Request.action Request.answering Store.isFenced Store.look
    Store.holdsFenced
  simp [hx, answer, Except.map]

theorem fence_answer (hheld : w.store.ledgers.contains l = true) :
    (w.perform (.request .direct (.fence l))).1 = .ok (.flag !w.store.holdsFenced l) := by
  obtain ⟨x, hx⟩ := Option.isSome_iff_exists.mp hheld
  unfold perform request send Host.ask Request.action Request.answering Store.fence Store.change
    Store.holdsFenced
  simp [hx, answer, Except.map, Ledger.fence]

/-- What the fence calls on a ledger since it was last removed say of its bit. -/
structure WinsOnce (l : LedgerId) (calls : List FencingCall) (w : Host) : Prop where
  /-- The first call that the store answers has news, and no other one. -/
  news_iff : ∀ i call, calls[i]? = some call → (call.news = true ↔ i = 0)
  /-- The next one has news if there was none before it. -/
  next : w.store.ledgers.contains l = true →
    w.marks (.act (.request .direct (.fence l))) = [.fenced ⟨l, calls.isEmpty, none⟩]
  /-- The bit is set if there was a call. -/
  fenced_iff : w.store.holdsFenced l = true ↔ calls ≠ []
  isFenced : w.store.ledgers.contains l = true →
    (w.perform (.request .direct (.isFenced l))).1 = .ok (.flag !calls.isEmpty)
  /-- There is no call on a ledger that is not there. -/
  absent : w.store.ledgers.contains l = false → calls = []
  /-- A durable call is the first to fence if the store has news for it. -/
  first_iff : ∀ call ∈ calls, ∀ path, call.path = some path →
    (path = .first ↔ call.news = true)
  atMostOneFirst : calls.countP (fun call => decide (call.path = some .first)) ≤ 1
  /-- Nothing but a call that the store answers and a removal touches the bit. -/
  untouched : ∀ next, (∀ mark ∈ w.marks next, mark.ledger ≠ l) →
    (w.happen next).store.holdsFenced l = w.store.holdsFenced l
  others : ∀ op : Op, op.mayTouchBits = false →
    (w.perform op).2.store.holdsFenced l = w.store.holdsFenced l
  /-- A deletion tells of the bit. -/
  told : ∀ access conduct, ∀ t ∈ (w.announce access l conduct).told,
    t.wasFenced = !calls.isEmpty

/-- What the calls say of the bit, from the calls since the ledger was created. -/
theorem Latched.winsOnce {calls : List FencingCall} {subscribed : List Subscriber}
    (h : Latched l calls w) (henrolled : Enrolls subscribed w) : WinsOnce l calls w where
  news_iff := h.news_iff
  first_iff := h.first_iff
  atMostOneFirst := h.countP_first_le
  next hheld := by
    change requestMarks _ _ = _
    unfold requestMarks
    rw [fence_answer hheld, h.fenced, Bool.not_not]
    rfl
  fenced_iff := by simp [h.fenced]
  isFenced hheld := by rw [isFenced_answer hheld, h.fenced]
  absent habsent := by
    have hclear := Store.holdsFenced_of_absent (Store.contains_eq_false_iff.mp habsent)
    simpa [h.fenced] using hclear
  untouched next hmarks := by
    have hnext := (happen_latches w next).bits l calls h
    rw [BitMark.foldl_addTo_of_ne hmarks] at hnext
    rw [hnext.fenced, h.fenced]
  others op hop := perform_keepsBits w hop l
  told access conduct t ht := by
    rw [((henrolled.tellsInFull access l conduct).of_mem ht).2.2, h.fenced]

/-- After everything that may have happened on a host, of the calls that the store answered
since a ledger was created the first one fenced it, whichever way the calls took. The calls
are those that the host counted. -/
theorem fenced_once_in_lifetime (faults : Option FaultPlan) (past : List Happening) :
    (∀ l, WinsOnce l (BitMark.callsOn l ((start faults).marksOver past))
      ((start faults).afterAll past)) ∧
    ∀ path, ((start faults).afterAll past).metrics.count (.fenceAttempts path) =
      BitMark.countOn path ((start faults).marksOver past) := by
  have hmarks := afterAll_latches (start faults) past
  refine ⟨fun l => ?_, fun path => ?_⟩
  · have hlatched := hmarks.bits l [] (start_latched faults l)
    exact hlatched.winsOnce ((start_enrolls faults).afterAll past)
  · rw [hmarks.attempts]
    exact Nat.zero_add _

/-- A call fails before it reaches the store, two handles are fenced, and so is the store. -/
def racing : List Happening :=
  [.act (.createCache .standard), .act (.openWritable 0 ⟨1⟩ [0x6b] false),
    .act (.createHandle ⟨1⟩ [0x6b] false), .act (.planFault .fence ⟨some 1, .io "disk full"⟩),
    .act (.use (.writable 1) .fence), .decide 1, .decide 0, .act (.request .direct (.fence ⟨1⟩))]

/-- The handle that decides first has news, and neither the other handle nor the store's own
caller. From then on the ledger is fenced, and whoever is told of its deletion hears so. -/
theorem racing_calls_have_one_winner :
    let w := (start (some .empty)).afterAll racing
    BitMark.callsOn ⟨1⟩ ((start (some .empty)).marksOver racing) =
        [⟨⟨1⟩, true, some .first⟩, ⟨⟨1⟩, false, some .retry⟩, ⟨⟨1⟩, false, none⟩] ∧
      w.marks (.act (.request .direct (.fence ⟨1⟩))) = [.fenced ⟨⟨1⟩, false, none⟩] ∧
      (w.perform (.request .direct (.isFenced ⟨1⟩))).1 = .ok (.flag true) ∧
      w.metrics.count (.fenceAttempts .first) = 1 ∧
      ∀ access conduct, ∀ t ∈ (w.announce access ⟨1⟩ conduct).told, t.wasFenced = true := by
  intro w
  obtain ⟨hwins, hcounts⟩ := fenced_once_in_lifetime (some .empty) racing
  have hcalls : BitMark.callsOn ⟨1⟩ ((start (some .empty)).marksOver racing) =
      [⟨⟨1⟩, true, some .first⟩, ⟨⟨1⟩, false, some .retry⟩, ⟨⟨1⟩, false, none⟩] := by
    decide
  have hledger := hwins ⟨1⟩
  rw [hcalls] at hledger
  have hheld : w.store.ledgers.contains ⟨1⟩ = true := by decide
  refine ⟨hcalls, hledger.next hheld, hledger.isFenced hheld, ?_, hledger.told⟩
  rw [hcounts]
  decide

end Host

end FencedLedger
