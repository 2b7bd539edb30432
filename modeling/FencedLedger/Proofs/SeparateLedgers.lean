import FencedLedger.Proofs.LocalActions
import FencedLedger.Session

/-!
# Ledgers that do not interfere

A session may work on many ledgers at once, with requests and through handles. What it
does on one of them comes to the same as if it had left the others alone: the same
replies, the same events and the same ledger in the end. The proof runs a session side
by side with one that is given the commands on that ledger only. Caches, listeners,
readers, fence markers and commands that look at several ledgers do tell one ledger from
the others, so sessions here have none.
-/

namespace FencedLedger

/-- The watcher that a request mentions. -/
def Request.watcher? : Request → Option Watcher
  | .watch _ _ watcher | .unwatch _ watcher => some watcher
  | _ => none

/-- The watcher that a call mentions. -/
def HandleCall.watcher? : HandleCall → Option Watcher
  | .watch _ watcher | .unwatch watcher => some watcher
  | _ => none

namespace Session

variable {kinds : String → Reaction} {l : LedgerId} {s t : Session} {command : Command}

/-- The session behind commands. -/
def after (s : Session) (commands : List Command) : Session :=
  commands.foldl (fun s command => (s.step command).2) s

/-- The ledger of a named handle. -/
def ledgerNamed? (s : Session) (name : String) : Option LedgerId :=
  (s.handles.get? name).map s.host.ledgerOf

/-- The ledger that a command is on. -/
def ledger? (s : Session) : Command → Option LedgerId
  | .request _ r => some r.ledger
  | .append _ entry => (Entry.readHeader entry).toOption.map Entry.Header.ledger
  | .remove _ l | .createHandle l _ _ _ => some l
  | .use name _ | .handleLedger name | .handleDump name | .isPersisted name => s.ledgerNamed? name
  | _ => none

/-- Whether a command is on one ledger only. A watcher that it mentions reacts the way
that its label stands for. -/
def isolates (kinds : String → Reaction) (s : Session) : Command → Bool
  | .request _ r => r.watcher?.all fun who => who.reaction = kinds who.label
  | .use name call =>
      (call.watcher?.all fun who => who.reaction = kinds who.label) &&
        call.listed?.all fun other => s.ledgerNamed? name = some other
  | .append .. | .remove .. | .createHandle .. | .handleLedger _ | .handleDump _
  | .isPersisted _ => true
  | _ => false

/-- Whether this holds of every command in a run. -/
def isolated (kinds : String → Reaction) : Session → List Command → Bool
  | _, [] => true
  | s, command :: commands =>
      s.isolates kinds command && isolated kinds (s.step command).2 commands

/-- The commands of a run that are on no other ledger, each with what it comes to. -/
def own (l : LedgerId) : Session → List Command → List (Command × Step)
  | _, [] => []
  | s, command :: commands =>
      let (step, s') := s.step command
      if (s.ledger? command).all (· = l) then (command, step) :: own l s' commands
      else own l s' commands

/-! ### Names -/

/-- Names stand for handles that were made, and labels for watchers of one kind. -/
structure Named (kinds : String → Reaction) (s : Session) : Prop where
  handles : ∀ {name ref}, s.handles.get? name = some ref →
    ∃ h x, ref = .writable h ∧ s.host.handles.get? h = some x
  watchers : ∀ {label who}, s.watchers.get? label = some who → who = ⟨label, kinds label⟩

/-- Every mention of a watcher is a mention of the same one. -/
theorem Named.watcherOf {who : Watcher} (h : Named kinds s)
    (hwho : who.reaction = kinds who.label) :
    ∃ watchers, s.watcherOf who = (who, { s with watchers }) ∧
      Named kinds { s with watchers } := by
  unfold Session.watcherOf
  split
  next known hknown =>
    refine ⟨s.watchers, ?_, h⟩
    rw [h.watchers hknown, ← hwho]
  next =>
    refine ⟨_, rfl, h.handles, fun {label other} hother => ?_⟩
    rw [Table.get?_insert] at hother
    split at hother
    next heq =>
      cases hother
      rw [← heq, ← hwho]
    next => exact h.watchers hother

/-- A watcher that a request names is there or is created, and reacts as its label says. -/
theorem Named.requestOf {r : Request} (h : Named kinds s)
    (hr : (r.watcher?.all fun who => who.reaction = kinds who.label) = true) :
    ∃ watchers, s.requestOf r = (r, { s with watchers }) ∧ Named kinds { s with watchers } := by
  cases r with
  | watch ledger known who | unwatch ledger who =>
      have hwho : who.reaction = kinds who.label := by simpa [Request.watcher?] using hr
      obtain ⟨watchers, hof, hnamed⟩ := h.watcherOf hwho
      refine ⟨watchers, ?_, hnamed⟩
      unfold Session.requestOf
      dsimp only
      rw [hof]
  | _ => exact ⟨s.watchers, rfl, h⟩

/-- So is a watcher that a call on a handle names. -/
theorem Named.callOf {call : HandleCall} (h : Named kinds s)
    (hcall : (call.watcher?.all fun who => who.reaction = kinds who.label) = true) :
    ∃ watchers, s.callOf call = (call, { s with watchers }) ∧ Named kinds { s with watchers } := by
  cases call with
  | watch known who | unwatch who =>
      have hwho : who.reaction = kinds who.label := by simpa [HandleCall.watcher?] using hcall
      obtain ⟨watchers, hof, hnamed⟩ := h.watcherOf hwho
      refine ⟨watchers, ?_, hnamed⟩
      unfold Session.callOf
      dsimp only
      rw [hof]
  | _ => exact ⟨s.watchers, rfl, h⟩

theorem Named.withHost {w : Host} (h : Named kinds s)
    (hgrow : HandlesGrow s.host.handles w.handles) : Named kinds { s with host := w } where
  handles hname := by
    obtain ⟨h', x, href, hx⟩ := h.handles hname
    exact ⟨h', x, href, hgrow.kept hx⟩
  watchers := h.watchers

/-- A handle that was just made has no other name. -/
theorem Named.sameAs (h : Named kinds s) (name : String) :
    Session.sameAs (s.handles.insert name (.writable s.host.handles.next)) name
      (.writable s.host.handles.next) = [] := by
  have hnone : ((s.handles.insert name (.writable s.host.handles.next)).entries.filter
      fun b => b.1 ≠ name ∧ b.2 = .writable s.host.handles.next) = [] := by
    refine List.filter_eq_nil_iff.mpr ?_
    rintro ⟨other, ref⟩ hmem hsame
    obtain ⟨hother, rfl⟩ : other ≠ name ∧ ref = .writable s.host.handles.next := by
      simpa using hsame
    have hget := Table.get?_eq_some_iff.mpr hmem
    rw [Table.get?_insert_ne _ _ (Ne.symm hother)] at hget
    obtain ⟨h', x, href, hx⟩ := h.handles hget
    cases href
    cases (s.host.handles.get?_of_next_le (Nat.le_refl _)).symm.trans hx
  unfold Session.sameAs
  rw [hnone, List.map_nil, List.mergeSort_nil]

/-- A name is given to a handle that is there, and the other names still mean what they
meant. -/
theorem Named.bind {w : Host} {name : String} {h : Nat} {x : Handle} (hs : Named kinds s)
    (hgrow : HandlesGrow s.host.handles w.handles) (hx : w.handles.get? h = some x) :
    Named kinds { s with host := w, handles := s.handles.insert name (.writable h) } where
  handles hname := by
    change (s.handles.insert name _).get? _ = _ at hname
    rw [Table.get?_insert] at hname
    split at hname
    next =>
      cases hname
      exact ⟨h, x, rfl, hx⟩
    next => exact (hs.withHost hgrow).handles hname
  watchers := hs.watchers

theorem Named.ledgerNamed? {name : String} {h : Nat} {x : Handle}
    (hname : s.handles.get? name = some (.writable h)) (hx : s.host.handles.get? h = some x) :
    s.ledgerNamed? name = some x.ledger := by
  simp [Session.ledgerNamed?, hname, Host.ledgerOf, Host.handleAt, hx]

/-! ### Commands as operations -/

theorem performReply_eq (s : Session) (op : Op) :
    s.performReply op =
      ((s.host.perform op).1.map .answer, { s with host := (s.host.perform op).2 }) := by
  unfold performReply performThen perform
  cases s.host.perform op with
  | mk answer w => cases answer <;> rfl

section CreateHandle

variable {ledger : LedgerId} {key : Bytes} {ack : Bool} {w : Host}

theorem obey_createHandle_error {e : HandleError}
    (h : s.host.createHandle ledger ⟨key⟩ ack = (.error e, w)) (name : String) :
    s.obey (.createHandle ledger key ack name) = (.error (.handle e), { s with host := w }) := by
  have hperform : s.host.perform (.createHandle ledger key ack) = (.error (.handle e), w) := by
    change Host.answer _ _ (s.host.createHandle ledger ⟨key⟩ ack) = _
    rw [h]
    rfl
  change s.performObject _ _ = _
  unfold performObject performThen perform
  rw [hperform]

theorem obey_createHandle_ok {made : Nat}
    (h : s.host.createHandle ledger ⟨key⟩ ack = (.ok made, w)) (name : String) :
    s.obey (.createHandle ledger key ack name) =
      ({ s with host := w } : Session).bindHandle name (.writable made) := by
  have hperform : s.host.perform (.createHandle ledger key ack) = (.ok (.object made), w) := by
    change Host.answer _ _ (s.host.createHandle ledger ⟨key⟩ ack) = _
    rw [h]
    rfl
  change s.performObject _ _ = _
  unfold performObject performThen perform
  rw [hperform]

end CreateHandle

theorem perform_use {h : Nat} {x : Handle} {w : Host} (hx : w.handles.get? h = some x)
    (call : HandleCall) :
    w.perform (.use (.writable h) call) = Host.answer .handle id (w.use (.writable h) call) := by
  have hheld : w.knowsHandle (.writable h) = true := by simp [Host.knowsHandle, Arena.holds, hx]
  exact if_pos hheld

/-! ### Side by side -/

/-- The second session has what the first has of a ledger, and the names for it. -/
structure Mirrors (kinds : String → Reaction) (l : LedgerId) (s t : Session) : Prop where
  first : Named kinds s
  second : Named kinds t
  alike : Host.Alike l s.host t.host
  handles : ∀ {name h x}, s.handles.get? name = some (.writable h) →
    s.host.handles.get? h = some x → x.ledger = l →
      ∃ h', t.handles.get? name = some (.writable h') ∧ t.host.handles.get? h' = some x
  unnamed : ∀ {name}, s.handles.get? name = none → t.handles.get? name = none

/-- A session that has raised no events. -/
def quiet (s : Session) : Session := { s with host := { s.host with events := [] } }

/-- Whatever the hosts did, each name stands for the handle that it stood for. -/
theorem Mirrors.kept {w v : Host} {name : String} {h : Nat} {x : Handle}
    (hm : Mirrors kinds l s t) (hw : HandlesGrow s.host.handles w.handles)
    (hv : HandlesGrow t.host.handles v.handles)
    (hname : s.handles.get? name = some (.writable h)) (hx : w.handles.get? h = some x)
    (hl : x.ledger = l) :
    ∃ h', t.handles.get? name = some (.writable h') ∧ v.handles.get? h' = some x := by
  obtain ⟨h₀, x₀, href, hx₀⟩ := hm.first.handles hname
  cases href
  obtain rfl : x₀ = x := Option.some.inj ((hw.kept hx₀).symm.trans hx)
  obtain ⟨h', hname', hx'⟩ := hm.handles hname hx₀ hl
  exact ⟨h', hname', hv.kept hx'⟩

theorem Mirrors.withHosts {w v : Host} (h : Mirrors kinds l s t) (halike : Host.Alike l w v)
    (hw : HandlesGrow s.host.handles w.handles) (hv : HandlesGrow t.host.handles v.handles) :
    Mirrors kinds l { s with host := w } { t with host := v } :=
  ⟨h.first.withHost hw, h.second.withHost hv, halike, h.kept hw hv, h.unnamed⟩

theorem Mirrors.withWatchers {watchers watchers' : Table String Watcher}
    (h : Mirrors kinds l s t) (hs : Named kinds { s with watchers })
    (ht : Named kinds { t with watchers := watchers' }) :
    Mirrors kinds l { s with watchers } { t with watchers := watchers' } :=
  ⟨hs, ht, h.alike, h.handles, h.unnamed⟩

/-- Operations that come to the same on both sides are replied to alike. -/
theorem Mirrors.performReply {op op' : Op} (h : Mirrors kinds l s t)
    (hop : op.concernsFencing = false) (hop' : op'.concernsFencing = false)
    (hsame : (s.host.perform op).1 = (t.host.perform op').1 ∧
      Host.Alike l (s.host.perform op).2 (t.host.perform op').2) :
    (s.performReply op).1 = (t.performReply op').1 ∧
      Mirrors kinds l (s.performReply op).2 (t.performReply op').2 := by
  rw [performReply_eq, performReply_eq]
  exact ⟨congrArg (Except.map Reply.answer) hsame.1,
    h.withHosts hsame.2 (Host.perform_calm _ hop).handles (Host.perform_calm _ hop').handles⟩

/-- A name of the ledger on both sides, or of nothing. -/
theorem Mirrors.name_cases (h : Mirrors kinds l s t) {name : String}
    (hown : (s.ledgerNamed? name).all (· = l) = true) :
    s.handles.get? name = none ∧ t.handles.get? name = none ∨
      ∃ n m x, s.handles.get? name = some (.writable n) ∧ s.host.handles.get? n = some x ∧
        t.handles.get? name = some (.writable m) ∧ t.host.handles.get? m = some x ∧
        x.ledger = l := by
  cases hname : s.handles.get? name with
  | none => exact Or.inl ⟨rfl, h.unnamed hname⟩
  | some ref =>
      obtain ⟨n, x, rfl, hx⟩ := h.first.handles hname
      rw [Named.ledgerNamed? hname hx] at hown
      have hl : x.ledger = l := by simpa using hown
      obtain ⟨m, hname', hx'⟩ := h.handles hname hx hl
      exact Or.inr ⟨n, m, x, rfl, hx, hname', hx', hl⟩

/-- A name of the ledger is looked up on both sides, and what is done with the handle goes on
alike. -/
theorem Mirrors.withName (h : Mirrors kinds l s t) {name : String}
    (hown : (s.ledgerNamed? name).all (· = l) = true) {f g : HandleRef → Result Reply}
    (hfg : ∀ {n m x}, s.handles.get? name = some (.writable n) →
      s.host.handles.get? n = some x → t.handles.get? name = some (.writable m) →
      t.host.handles.get? m = some x → x.ledger = l →
      (f (.writable n)).1 = (g (.writable m)).1 ∧
        Mirrors kinds l (f (.writable n)).2 (g (.writable m)).2) :
    (s.withName s.handles name f).1 = (t.withName t.handles name g).1 ∧
      Mirrors kinds l (s.withName s.handles name f).2 (t.withName t.handles name g).2 := by
  unfold Session.withName
  rcases h.name_cases hown with ⟨hnone, hnone'⟩ | ⟨n, m, x, hname, hx, hname', hx', hl⟩
  · rw [hnone, hnone']
    exact ⟨rfl, h⟩
  · rw [hname, hname']
    exact hfg hname hx hname' hx' hl

/-- A handle made on both sides gets the same name, and no other. -/
theorem Mirrors.createHandle (h : Mirrors kinds l s t) (key : Bytes) (ack : Bool)
    (name : String) :
    (s.obey (.createHandle l key ack name)).1 = (t.obey (.createHandle l key ack name)).1 ∧
      Mirrors kinds l (s.obey (.createHandle l key ack name)).2
        (t.obey (.createHandle l key ack name)).2 := by
  have hw := s.host.createHandle_handlesGrow l ⟨key⟩ ack
  have hv := t.host.createHandle_handlesGrow l ⟨key⟩ ack
  -- the handle is made on both sides or on neither
  rcases Host.createHandle_alike h.alike ⟨key⟩ ack with ⟨e, hs, ht, halike⟩ |
    ⟨w, v, hs, ht, hadd, hadd', halike⟩
  · cases hcreate : s.host.createHandle l ⟨key⟩ ack with
    | mk answer w =>
        cases hcreate' : t.host.createHandle l ⟨key⟩ ack with
        | mk answer' v =>
            rw [hcreate] at hs halike hw
            rw [hcreate'] at ht halike hv
            cases hs
            cases ht
            rw [obey_createHandle_error hcreate, obey_createHandle_error hcreate']
            exact ⟨rfl, h.withHosts halike hw hv⟩
  · rw [hs] at hw
    rw [ht] at hv
    rw [obey_createHandle_ok hs, obey_createHandle_ok ht]
    -- the numbers of the two differ, and what they hold is the same
    have hx : w.handles.get? s.host.handles.next = some (.create l ⟨key⟩ ack) := by
      rw [hadd, Arena.get?_add_next]
    have hx' : v.handles.get? t.host.handles.next = some (.create l ⟨key⟩ ack) := by
      rw [hadd', Arena.get?_add_next]
    unfold bindHandle tell
    dsimp only
    rw [h.first.sameAs name, h.second.sameAs name]
    refine ⟨?_, h.first.bind hw hx, h.second.bind hv hx', halike, ?_, ?_⟩
    · simp [Host.ledgerOf, Host.handleAt, hx, hx']
    · intro other n x hother hx₀ hl
      change (s.handles.insert name _).get? other = _ at hother
      change ∃ m, (t.handles.insert name _).get? other = _ ∧ v.handles.get? m = _
      rw [Table.get?_insert] at hother ⊢
      split at hother
      next heq =>
        cases hother
        rw [if_pos heq]
        exact ⟨_, rfl, hx'.trans (hx.symm.trans hx₀)⟩
      next hne =>
        rw [if_neg hne]
        exact h.kept hw hv hother hx₀ hl
    · intro other hother
      change (s.handles.insert name _).get? other = _ at hother
      change (t.handles.insert name _).get? other = _
      rw [Table.get?_insert] at hother ⊢
      split at hother
      next => cases hother
      next hne =>
        rw [if_neg hne]
        exact h.unnamed hother

/-- A command on the ledger comes to the same on both sides. -/
theorem Mirrors.obey (h : Mirrors kinds l s t) (hisolates : s.isolates kinds command = true)
    (hown : (s.ledger? command).all (· = l) = true) :
    (s.obey command).1 = (t.obey command).1 ∧
      Mirrors kinds l (s.obey command).2 (t.obey command).2 := by
  cases command with
  | request access r =>
      have hl : r.ledger = l := by simpa [ledger?] using hown
      -- a watcher that is named for the first time is made on both sides
      obtain ⟨watchers, hof, hs⟩ := h.first.requestOf hisolates
      obtain ⟨watchers', hof', ht⟩ := h.second.requestOf hisolates
      change ((s.requestOf r).2.performReply (.request access (s.requestOf r).1)).1 =
          ((t.requestOf r).2.performReply (.request access (t.requestOf r).1)).1 ∧
        Mirrors kinds l ((s.requestOf r).2.performReply (.request access (s.requestOf r).1)).2
          ((t.requestOf r).2.performReply (.request access (t.requestOf r).1)).2
      rw [hof, hof']
      refine (h.withWatchers hs ht).performReply rfl rfl (Host.answer_alike ?_)
      exact Host.send_alike (hl ▸ Store.request_local r) h.alike access r.call
  | append access entry =>
      refine h.performReply rfl rfl (Host.answer_alike (Host.append_alike h.alike access ?_))
      intro header hheader
      simpa [ledger?, hheader, Except.toOption] using hown
  | remove access ledger =>
      obtain rfl : ledger = l := by simpa [ledger?] using hown
      exact h.performReply rfl rfl (Host.answer_alike (Host.remove_alike h.alike access))
  | createHandle ledger key ack name =>
      obtain rfl : ledger = l := by simpa [ledger?] using hown
      exact h.createHandle key ack name
  | use name call =>
      obtain ⟨hwho, hlisted⟩ := Bool.and_eq_true_iff.mp hisolates
      refine h.withName hown fun {n m x} hname hx hname' hx' hl => ?_
      obtain ⟨watchers, hof, hs⟩ := h.first.callOf hwho
      obtain ⟨watchers', hof', ht⟩ := h.second.callOf hwho
      rw [hof, hof']
      refine (h.withWatchers hs ht).performReply rfl rfl ?_
      dsimp only
      rw [perform_use hx, perform_use hx']
      refine Host.answer_alike (Host.use_alike h.alike hx hx' hl fun other hother => ?_)
      rw [hother, Named.ledgerNamed? hname hx, hl] at hlisted
      simpa [eq_comm] using hlisted
  | handleLedger name =>
      refine h.withName hown fun {n m x} _ hx _ hx' _ => ⟨?_, h⟩
      simp [tell, Host.ledgerOf, Host.handleAt, hx, hx']
  | handleDump name =>
      refine h.withName hown fun {n m x} _ hx _ hx' _ => ⟨?_, h⟩
      simp [tell, Host.handleAt, hx, hx']
  | isPersisted name =>
      refine h.withName hown fun {n m x} _ hx _ hx' _ => ⟨?_, h⟩
      simp [tell, Host.handleAt, hx, hx']
  | _ => cases hisolates

/-! ### Commands on other ledgers -/

/-- A command on another ledger leaves the two sessions in step. -/
theorem Mirrors.elsewhere {w : Host} (h : Mirrors kinds l s t) (hquiet : t.host.events = [])
    (helse : Host.Elsewhere l s.host w) :
    Mirrors kinds l ({ s with host := w } : Session).quiet t where
  first := h.first.withHost helse.handles
  second := h.second
  alike := ⟨helse.ledger.trans h.alike.ledger,
    ⟨helse.unplanned h.alike.unplanned.1, h.alike.unplanned.2⟩,
    ⟨helse.subscribers.trans h.alike.unheard.1, h.alike.unheard.2⟩, hquiet.symm⟩
  handles := h.kept helse.handles (.refl _)
  unnamed := h.unnamed

theorem Mirrors.performReply_elsewhere {op : Op} (h : Mirrors kinds l s t)
    (hquiet : t.host.events = []) (helse : Host.Elsewhere l s.host (s.host.perform op).2) :
    Mirrors kinds l (s.performReply op).2.quiet t := by
  rw [performReply_eq]
  exact h.elsewhere hquiet helse

/-- A command on another ledger is lost on the second session. -/
theorem Mirrors.obey_elsewhere {l' : LedgerId} (h : Mirrors kinds l s t)
    (hquiet : t.host.events = []) (hisolates : s.isolates kinds command = true)
    (hother : s.ledger? command = some l') (hne : l' ≠ l) :
    Mirrors kinds l (s.obey command).2.quiet t := by
  cases command with
  | request access r =>
      cases hother
      obtain ⟨watchers, hof, hs⟩ := h.first.requestOf hisolates
      change Mirrors kinds l
        ((s.requestOf r).2.performReply (.request access (s.requestOf r).1)).2.quiet t
      rw [hof]
      refine (h.withWatchers hs h.second).performReply_elsewhere hquiet ?_
      change Host.Elsewhere l _ (Host.answer _ _ _).2
      rw [Host.answer_host]
      exact Host.request_elsewhere s.host access hne
  | append access entry =>
      refine h.performReply_elsewhere hquiet ?_
      change Host.Elsewhere l _ (Host.answer _ _ _).2
      rw [Host.answer_host]
      refine (Host.append_steadyCall _ access entry).elsewhere (Host.append_elsewhere _ access ?_)
      intro header hheader
      simp only [ledger?, hheader, Except.toOption, Option.map_some, Option.some.injEq] at hother
      exact hother ▸ hne
  | remove access ledger =>
      cases hother
      refine h.performReply_elsewhere hquiet ?_
      change Host.Elsewhere l _ (Host.answer _ _ _).2
      rw [Host.answer_host]
      exact Host.remove_elsewhere h.alike.unheard.1 access hne
  | createHandle ledger key ack name =>
      cases hother
      have helse := Host.createHandle_elsewhere s.host ⟨key⟩ ack hne
      cases hcreate : s.host.createHandle l' ⟨key⟩ ack with
      | mk answer w =>
          rw [hcreate] at helse
          have hm := h.elsewhere hquiet helse
          cases answer with
          | error e =>
              rw [obey_createHandle_error hcreate]
              exact hm
          | ok made =>
              rw [obey_createHandle_ok hcreate]
              obtain ⟨rfl, hmade, -⟩ := Host.createHandle_ok hcreate
              obtain ⟨ack', hadd⟩ := hmade.handles
              have hx : w.handles.get? s.host.handles.next = some (.create l' ⟨key⟩ ack') := by
                rw [hadd, Arena.get?_add_next]
              refine ⟨h.first.bind helse.handles hx, h.second, hm.alike, ?_, ?_⟩
              · intro other n x hother' hx' hl
                change (s.handles.insert name _).get? other = _ at hother'
                rw [Table.get?_insert] at hother'
                split at hother'
                next =>
                  -- the name was taken over, by a handle of another ledger
                  cases hother'
                  cases hx.symm.trans hx'
                  exact absurd hl hne
                next => exact hm.handles hother' hx' hl
              · intro other hother'
                change (s.handles.insert name _).get? other = _ at hother'
                rw [Table.get?_insert] at hother'
                split at hother'
                next => cases hother'
                next => exact h.unnamed hother'
  | use name call =>
      obtain ⟨hwho, hlisted⟩ := Bool.and_eq_true_iff.mp hisolates
      obtain ⟨ref, hname, -⟩ := Option.map_eq_some_iff.mp hother
      obtain ⟨n, x, rfl, hx⟩ := h.first.handles hname
      obtain ⟨watchers, hof, hs⟩ := h.first.callOf hwho
      change Mirrors kinds l (s.withName s.handles name fun ref =>
        (s.callOf call).2.performReply (.use ref (s.callOf call).1)).2.quiet t
      unfold Session.withName
      rw [hname, hof]
      refine (h.withWatchers hs h.second).performReply_elsewhere hquiet ?_
      dsimp only
      rw [perform_use hx, Host.answer_host]
      have hat : (s.host.handleAt n).ledger = l' := by
        simpa [ledger?, ledgerNamed?, hname, Host.ledgerOf] using hother
      refine Host.use_elsewhere s.host n (fun other hcall => ?_) (hat ▸ hne)
      rw [hcall] at hlisted
      simpa [ledgerNamed?, hname, Host.ledgerOf, eq_comm] using hlisted
  | handleLedger name | handleDump name | isPersisted name =>
      obtain ⟨ref, hname, -⟩ := Option.map_eq_some_iff.mp hother
      obtain ⟨n, x, rfl, hx⟩ := h.first.handles hname
      change Mirrors kinds l (s.withName s.handles name _).2.quiet t
      unfold Session.withName
      rw [hname]
      exact h.elsewhere hquiet (.of_idle (.refl s.host))
  | _ => cases hisolates

/-! ### Runs -/

theorem start_mirrors (kinds : String → Reaction) (l : LedgerId) :
    Mirrors kinds l (start none) (start none) where
  first := ⟨nofun, nofun⟩
  second := ⟨nofun, nofun⟩
  alike := ⟨rfl, ⟨rfl, rfl⟩, ⟨rfl, rfl⟩, rfl⟩
  handles := nofun
  unnamed := id

theorem Mirrors.quiet (h : Mirrors kinds l s t) : Mirrors kinds l s.quiet t.quiet :=
  ⟨h.first.withHost (.refl _), h.second.withHost (.refl _),
    ⟨h.alike.ledger, h.alike.unplanned, h.alike.unheard, rfl⟩, h.handles, h.unnamed⟩

/-- By induction on the run: the second session makes a step just when the first makes one
on the ledger. -/
theorem Mirrors.run {commands : List Command} (h : Mirrors kinds l s.quiet t.quiet)
    (hisolated : s.isolated kinds commands = true) :
    t.run ((own l s commands).map Prod.fst) = (own l s commands).map Prod.snd ∧
      (t.after ((own l s commands).map Prod.fst)).host.store.ledgers.get? l =
        (s.after commands).host.store.ledgers.get? l := by
  induction commands generalizing s t with
  | nil => exact ⟨rfl, h.alike.ledger.symm⟩
  | cons command commands ih =>
      obtain ⟨hisolates, hrest⟩ := Bool.and_eq_true_iff.mp hisolated
      unfold own
      -- a command on the ledger is a step of both, any other a step of the first alone
      by_cases hown : (s.ledger? command).all (· = l) = true
      · obtain ⟨hanswer, hm⟩ := h.obey hisolates hown
        obtain ⟨hrun, hafter⟩ := ih (t := (t.step command).2) hm.quiet hrest
        have hstep : (t.step command).1 = (s.step command).1 := by
          change (⟨(t.quiet.obey command).1, (t.quiet.obey command).2.host.events⟩ : Step) =
            ⟨(s.quiet.obey command).1, (s.quiet.obey command).2.host.events⟩
          rw [hanswer, hm.alike.events]
        simp only [hown, if_true, List.map_cons]
        refine ⟨?_, hafter⟩
        change (t.step command).1 :: (t.step command).2.run _ = _
        rw [hstep]
        exact congrArg (_ :: ·) hrun
      · obtain ⟨l', hother⟩ : ∃ l', s.ledger? command = some l' := by
          cases hledger : s.ledger? command with
          | none => simp [hledger] at hown
          | some l' => exact ⟨l', rfl⟩
        have hne : l' ≠ l := by simpa [hother] using hown
        have hm := h.obey_elsewhere rfl hisolates hother hne
        simp only [hown]
        exact ih hm hrest

/-- In every run on many ledgers, the commands on one of them come to what they come to
without the others, replies and events, and leave the same ledger. What is stored through
a handle is stored in its ledger, whatever the bytes. -/
theorem ledgers_do_not_interfere (kinds : String → Reaction) (l : LedgerId)
    (commands : List Command) (hisolated : (start none).isolated kinds commands = true) :
    (start none).run ((own l (start none) commands).map Prod.fst) =
        (own l (start none) commands).map Prod.snd ∧
      ((start none).after ((own l (start none) commands).map Prod.fst)).host.store.ledgers.get? l =
        ((start none).after commands).host.store.ledgers.get? l ∧
      ∀ (w : Host) (h : Nat) (entry : Bytes) (other : LedgerId), (w.handleAt h).ledger ≠ other →
        (w.use (.writable h) (.append entry)).2.store.ledgers.get? other =
          w.store.ledgers.get? other := by
  obtain ⟨hrun, hledger⟩ := (start_mirrors kinds l).quiet.run hisolated
  exact ⟨hrun, hledger, fun w h entry other => w.appendThrough_elsewhere entry⟩

/-- Two ledgers are worked on with one watcher on both. An entry of the first is submitted
through a handle of the second, which is removed in the end. -/
def tangled : List Command :=
  [.request .direct (.bindKey ⟨1⟩ []), .createHandle ⟨2⟩ [7] false "h",
    .request .direct (.watch ⟨1⟩ .unset ⟨"w", .rearm⟩), .use "h" (.watch .unset ⟨"w", .rearm⟩),
    .use "h" (.append (Entry.encode ⟨1⟩ ⟨0⟩ ⟨0⟩ [])),
    .use "h" (.append (Entry.encode ⟨2⟩ ⟨0⟩ ⟨0⟩ [])),
    .append .direct (Entry.encode ⟨1⟩ ⟨0⟩ ⟨0⟩ []), .remove .direct ⟨2⟩,
    .request .direct (.entry ⟨1⟩ ⟨0⟩)]

/-- Four of the commands are on the first ledger, and one of them tells the watcher. -/
theorem first_ledger_alone :
    (start none).isolated (fun _ => .rearm) tangled = true ∧
      (own ⟨1⟩ (start none) tangled).map (fun b => b.2.events.length) = [0, 0, 1, 0] ∧
      (start none).run ((own ⟨1⟩ (start none) tangled).map Prod.fst) =
        (own ⟨1⟩ (start none) tangled).map Prod.snd := by
  have hisolated : (start none).isolated (fun _ => .rearm) tangled = true := by decide +kernel
  exact ⟨hisolated, by decide +kernel,
    (ledgers_do_not_interfere (fun _ => .rearm) ⟨1⟩ tangled hisolated).1⟩

end Session

end FencedLedger
