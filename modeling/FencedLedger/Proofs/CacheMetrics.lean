import FencedLedger.Proofs.CacheDesk
import FencedLedger.Proofs.DeletionNotices

/-!
# Metrics of caches

A look-up that is refused with a wrong key was counted where the key was found wrong, in the
store or in a handle, and never in both; it is counted by its code when it returns. So the
counts of refusals are those of the answers, whoever was answered and in the midst of which
deletion, and of what observers of deletions were answered when they looked a ledger up
again. The gauge of a kind is set whenever a handle of the kind is cached or dropped, and
nothing else changes how many there are. So with one cache the gauges are its sizes, also
after look-ups that failed and after those in the midst of a deletion. With several caches
a gauge shows the one that changed last. A look-up is taken as a whole: a caller who takes
turns with another one in the middle of it may set a gauge to what it was some steps before.
-/

namespace FencedLedger

/-- How many handles of a kind a cache holds. -/
def Cache.held (c : Cache) : HandleKind → Nat
  | .writable => c.writable.size
  | .readOnly => c.readers.size

/-- A counter that does not count refusals counts none. -/
theorem Counter.countP_tallies {c : Counter} (hc : c.countsRefusals = false)
    (rs : List Refusal) : rs.countP c.tallies = 0 := by
  refine List.countP_eq_zero.mpr fun r _ => ?_
  cases c with
  | unauthorized | handleErrors => cases hc
  | _ => exact Bool.false_ne_true

namespace Desk

variable {d d' d'' : Desk} {rs rs' : List Refusal}

/-- The cache with the given number. -/
def cacheAt (d : Desk) (c : Nat) : Cache := (d.caches.get? c).getD default

/-- What the gauge of a kind shows, and zero before it is set. -/
def shown (d : Desk) (kind : HandleKind) : Nat := (d.gauges.get? kind).getD 0

/-- Whether a cache is held by somebody, or asked by an observer. -/
def Reaches (d : Desk) (c : Nat) : Prop :=
  d.caches.holds c = true ∨
    ∃ o x r, d.observers.get? o = some x ∧ x.reopening = some r ∧ r.cache = c

/-- Whether no cache is reached but the first one. -/
def Single (d : Desk) : Prop := ∀ c, d.Reaches c → c = 0

/-- Callers were served, and refused with some errors, apart from those that events tell of.
The counts are up to date, and so are the gauges of a single cache if they were. -/
structure Refuses (rs : List Refusal) (d d' : Desk) : Prop where
  counted : ∀ c : Counter, d'.counts c + d.toldRefusals.countP c.tallies =
    d.counts c + d'.toldRefusals.countP c.tallies + rs.countP c.tallies
  shown : d.Single → ∀ kind, d.shown kind = (d.cacheAt 0).held kind →
    d'.shown kind = (d'.cacheAt 0).held kind
  next : d'.caches.next = d.caches.next
  held : ∀ c, d'.caches.holds c = d.caches.holds c
  observers : d'.observers = d.observers

namespace Refuses

theorem refl (d : Desk) : Refuses [] d d where
  counted _ := rfl
  shown _ _ h := h
  next := rfl
  held _ := rfl
  observers := rfl

theorem reaches_iff (h : Refuses rs d d') (c : Nat) : d'.Reaches c ↔ d.Reaches c := by
  unfold Reaches
  rw [h.held, h.observers]

theorem single_iff (h : Refuses rs d d') : d'.Single ↔ d.Single :=
  forall_congr' fun c => imp_congr_left (h.reaches_iff c)

/-- What is refused in two steps is refused one after the other, and counted so. -/
theorem trans (h : Refuses rs d d') (h' : Refuses rs' d' d'') : Refuses (rs ++ rs') d d'' where
  counted c := by
    have hfirst := h.counted c
    have hsecond := h'.counted c
    rw [List.countP_append]
    omega
  shown hsingle kind hshown :=
    h'.shown (h.single_iff.mpr hsingle) kind (h.shown hsingle kind hshown)
  next := h'.next.trans h.next
  held c := (h'.held c).trans (h.held c)
  observers := h'.observers.trans h.observers

/-- What is counted of the refusals is all that matters of them. -/
theorem congr (h : Refuses rs d d')
    (hrs : ∀ c : Counter, rs'.countP c.tallies = rs.countP c.tallies) : Refuses rs' d d' where
  counted c := by rw [hrs]; exact h.counted c
  shown := h.shown
  next := h.next
  held := h.held
  observers := h.observers

end Refuses

end Desk

namespace Host

variable {w w' : Host} {rs rs' : List Refusal}

/-- Callers were served, and refused with some errors. -/
abbrev Refuses (rs : List Refusal) (w w' : Host) : Prop := Desk.Refuses rs w.desk w'.desk

theorem refuses_of_desk (h : w'.desk = w.desk) : Refuses [] w w' := by
  unfold Refuses
  rw [h]
  exact .refl _

/-- The refusal that a call ends with is counted. -/
theorem refuses_count (h : Refuses rs w w') {c : Counter} (hcounts : c.countsRefusals = true)
    (hrs : ∀ c' : Counter, rs'.countP c'.tallies =
      rs.countP c'.tallies + if c = c' then 1 else 0) :
    Refuses rs' w (w'.count c 1) where
  counted c' := by
    have hbefore : w'.refusals c' + w.toldRefusals.countP c'.tallies =
        w.refusals c' + w'.toldRefusals.countP c'.tallies + rs.countP c'.tallies := h.counted c'
    have hafter : (w'.count c 1).refusals c' = w'.refusals c' + if c = c' then 1 else 0 := by
      rw [refusals_count]
      simp only [hcounts, and_true]
    change (w'.count c 1).refusals c' + w.toldRefusals.countP c'.tallies =
      w.refusals c' + w'.toldRefusals.countP c'.tallies + _
    rw [hafter, hrs]
    omega
  shown := h.shown
  next := h.next
  held := h.held
  observers := h.observers

/-- An error other than a wrong key is not counted by the step that finds it. -/
theorem refuses_uncounted (h : Refuses [] w w') {e : HandleError} (he : ∀ l, e ≠ .unauthorized l) :
    Refuses [⟨.access, e⟩] w w' := by
  refine h.congr fun c => ?_
  cases c with
  | unauthorized =>
      cases e with
      | unauthorized l => exact absurd rfl (he l)
      | _ => rfl
  | _ => rfl

/-! ### Checks of keys -/

theorem refuseKey_refuses (w : Host) (l : LedgerId) :
    Refuses [⟨.access, .unauthorized l⟩] w (w.refuseKey l).2 :=
  refuses_count (.refl w.desk) rfl fun c' => by cases c' <;> rfl

/-- A wrong key on a handle is counted as it is refused. -/
theorem checkAccess_refuses (w : Host) (h : Nat) (presented : Bytes) :
    Refuses (refusalOf .access (w.checkAccess h presented).1) w (w.checkAccess h presented).2 := by
  unfold checkAccess
  dsimp only
  split
  next => exact .refl w.desk
  next => exact w.refuseKey_refuses _

/-- A wrong key is refused and counted in one go. -/
theorem checkStoredKey_refuses (w : Host) (l : LedgerId) (presented : Bytes) :
    Refuses (refusalOf .access (w.checkStoredKey l presented).1) w
      (w.checkStoredKey l presented).2 := by
  have hcall := refuses_of_desk (w.call_desk .key (Store.key l))
  unfold checkStoredKey
  split
  next heq => rwa [heq] at hcall
  next heq =>
    rw [heq] at hcall
    exact refuses_uncounted hcall nofun
  next w₁ heq =>
    rw [heq] at hcall
    split
    next => exact hcall
    next => exact hcall.trans (w₁.refuseKey_refuses l)

/-! ### Changes of caches -/

theorem cacheAt_modifyCache (w : Host) (c : Nat) (f : Cache → Cache) :
    (w.modifyCache c f).cacheAt c = if w.caches.holds c then f (w.cacheAt c) else w.cacheAt c := by
  unfold cacheAt modifyCache Arena.holds
  dsimp only
  rw [Arena.get?_modify, if_pos rfl]
  cases w.caches.get? c <;> rfl

/-- A gauge shows what the cache held when it was brought up to date. -/
theorem shown_showCached (w : Host) (c : Nat) (kind kind' : HandleKind) :
    (w.showCached c kind).desk.shown kind' =
      if kind = kind' then (w.cacheAt c).held kind else w.desk.shown kind' := by
  have hshows : w.showCached c kind = w.gauge kind ((w.cacheAt c).held kind) := by
    cases kind <;> rfl
  rw [hshows]
  change ((w.metrics.gauges.insert kind _).get? kind').getD 0 = _
  rw [Table.get?_insert]
  split <;> rfl

/-- A change of one cache, with gauges that are up to date for it afterwards. -/
theorem refuses_of_modify {c : Nat} {f : Cache → Cache} (hfirst : w.desk.Single → c = 0)
    (hcaches : w'.caches = w.caches.modify c f) (hobservers : w'.observers = w.observers)
    (hcounts : w'.refusals = w.refusals) (htold : w'.toldRefusals = w.toldRefusals)
    (hshown : ∀ kind, w.desk.shown kind = (w.cacheAt c).held kind →
      w'.desk.shown kind = (w'.cacheAt c).held kind) :
    Refuses [] w w' where
  counted c' := by
    change w'.refusals c' + w.toldRefusals.countP _ = w.refusals c' + w'.toldRefusals.countP _ + 0
    rw [hcounts, htold]
    rfl
  shown hsingle := by
    obtain rfl := hfirst hsingle
    exact hshown
  next := by
    change w'.caches.next = _
    rw [hcaches]
    exact Arena.next_modify _ _ _
  held c' := by
    change w'.caches.holds c' = _
    rw [hcaches]
    exact Arena.holds_modify _ _ _ _
  observers := hobservers

/-- A handle is cached, and the gauge of its kind is set. -/
theorem showCached_refuses {c : Nat} (hfirst : w.desk.Single → c = 0) (kind : HandleKind)
    {f : Cache → Cache} (hothers : ∀ x kind', kind ≠ kind' → (f x).held kind' = x.held kind') :
    Refuses [] w ((w.modifyCache c f).showCached c kind) := by
  have hcaches : ((w.modifyCache c f).showCached c kind).caches = w.caches.modify c f := by
    cases kind <;> rfl
  have hat : ((w.modifyCache c f).showCached c kind).cacheAt c = (w.modifyCache c f).cacheAt c :=
    congrArg (fun caches => (Arena.get? caches c).getD default) hcaches
  refine refuses_of_modify hfirst hcaches (by cases kind <;> rfl) (by cases kind <;> rfl)
    (by cases kind <;> rfl) fun kind' hshown => ?_
  rw [shown_showCached, hat]
  split
  next heq => rw [heq]
  next hne =>
    refine hshown.trans ?_
    rw [cacheAt_modifyCache]
    split
    next => exact (hothers _ kind' hne).symm
    next => rfl

/-- A cache remembers a deletion. Its handles are as they were. -/
theorem rememberDeletion_desk (w : Host) (c : Nat) (l : LedgerId) :
    ∃ memory, (w.rememberDeletion c l).desk =
      { w.desk with caches := w.caches.modify c fun _ => { w.cacheAt c with memory } } := by
  unfold rememberDeletion Cache.remember
  dsimp only
  split
  next => exact ⟨_, rfl⟩
  next =>
    have hcounts (n : Nat) := congrArg Desk.counts (w.count_desk (c := .evictions) rfl n)
    exact ⟨_, congrArg (Desk.mk _ _ _ · _) (hcounts _)⟩

/-- Remembering a deletion refuses nobody and drops no handle. -/
theorem rememberDeletion_refuses {c : Nat} (hfirst : w.desk.Single → c = 0) (l : LedgerId) :
    Refuses [] w (w.rememberDeletion c l) := by
  obtain ⟨memory, hdesk⟩ := w.rememberDeletion_desk c l
  generalize w.rememberDeletion c l = w' at hdesk ⊢
  refine refuses_of_modify hfirst (congrArg Desk.caches hdesk) (congrArg Desk.observers hdesk)
    (congrArg Desk.counts hdesk) (congrArg Desk.toldRefusals hdesk) fun kind hshown => ?_
  have hat : w'.cacheAt c = (w.modifyCache c fun _ => { w.cacheAt c with memory }).cacheAt c :=
    congrArg (fun d : Desk => d.cacheAt c) hdesk
  have hgauges := congrArg Desk.gauges hdesk
  have hsame : w'.desk.shown kind = w.desk.shown kind :=
    congrArg (fun gauges => (Table.get? gauges kind).getD 0) hgauges
  rw [hsame, hshown, hat, cacheAt_modifyCache]
  split
  next => cases kind <;> rfl
  next => rfl

theorem dropHandles_refuses {c : Nat} (hfirst : w.desk.Single → c = 0) (l : LedgerId) :
    Refuses [] w (w.dropHandles c l) := by
  refine refuses_of_modify hfirst (f := (·.dropHandles l)) rfl rfl rfl rfl fun kind _ => ?_
  unfold dropHandles
  rw [shown_showCached, shown_showCached]
  cases kind <;> rfl

/-- A cache that is told drops what it holds, and brings the gauges up to date. -/
theorem tellCache_refuses {c : Nat} (hfirst : w.desk.Single → c = 0) (l : LedgerId)
    (wasFenced : Bool) : Refuses [] w (w.tellCache c l wasFenced) := by
  unfold tellCache
  dsimp only
  split
  next =>
    have hremembers := rememberDeletion_refuses hfirst l
    exact hremembers.trans (dropHandles_refuses (fun h => hfirst (hremembers.single_iff.mp h)) l)
  next => exact dropHandles_refuses hfirst l

/-! ### Look-ups -/

/-- Making a handle is refused by the store, if at all, which is not counted. -/
theorem createHandle_refuses (w : Host) (l : LedgerId) (key : MasterKey) (ack : Bool) :
    Refuses (refusalOf .access (w.createHandle l key ack).1) w (w.createHandle l key ack).2 := by
  have hcall := refuses_of_desk (w.call_desk .bindKey (Store.bindKey l key))
  unfold createHandle
  split
  next heq =>
    rw [heq] at hcall
    exact refuses_uncounted hcall nofun
  next heq => rwa [heq] at hcall

/-- A handle is made and cached, and it is shown how many there are. -/
theorem obtainHandle_refuses {c : Nat} (hfirst : w.desk.Single → c = 0) {l : LedgerId}
    (huncached : (w.cacheAt c).writable.get? l = none) (presented : Bytes) :
    match w.obtainHandle c l presented with
    | (.error e, w') => Refuses [⟨.access, e⟩] w w'
    | (.ok _, w') => Refuses [] w (w'.showCached c .writable) := by
  have hcheck := w.checkStoredKey_refuses l presented
  unfold obtainHandle
  simp only [huncached]
  rcases hchecked : w.checkStoredKey l presented with ⟨e | _, w₁⟩
  · rwa [hchecked] at hcheck
  · rw [hchecked] at hcheck
    have hcreate := w₁.createHandle_refuses l ⟨presented⟩ (w₁.cacheAt c).config.ackBeforeSync
    dsimp only
    rcases hcreated : w₁.createHandle l ⟨presented⟩ (w₁.cacheAt c).config.ackBeforeSync with
      ⟨e | h, w₂⟩
    · rw [hcreated] at hcreate
      exact hcheck.trans hcreate
    · rw [hcreated] at hcreate
      have hmakes := hcheck.trans hcreate
      have hsingle := fun h => hfirst (hmakes.single_iff.mp h)
      refine hmakes.trans (showCached_refuses hsingle .writable ?_)
      rintro x (_ | _) hne
      · exact absurd rfl hne
      · rfl

/-- Finding a handle counts what it is refused, and a handle that it made is shown. -/
theorem findHandle_refuses {c : Nat} (hfirst : w.desk.Single → c = 0) (l : LedgerId)
    (presented : Bytes) (replay : Bool) :
    Refuses (refusalOf .access (w.findHandle c l presented replay).1) w
      (w.findHandle c l presented replay).2 := by
  unfold findHandle
  split
  next => exact .refl w.desk
  next huncached =>
    split
    next => exact refuses_uncounted (.refl w.desk) nofun
    next =>
      have hobtain := obtainHandle_refuses hfirst huncached presented
      split
      next heq => rwa [heq] at hobtain
      next heq => rwa [heq] at hobtain

/-- A look-up that is refused counts that by its code. A wrong key was counted before. -/
theorem countRefusal_refuses (gate : Gate) (hgate : gate ≠ .access) {e : HandleError}
    (hcodes : ∀ code, rs.countP (Counter.handleErrors code).tallies = 0)
    (hkeys : rs.countP Counter.unauthorized.tallies =
      [Refusal.mk gate e].countP Counter.unauthorized.tallies)
    (h : Refuses rs w w') : Refuses [⟨gate, e⟩] w (w'.countRefusal e) := by
  refine refuses_count h rfl fun c' => ?_
  cases c' with
  | unauthorized => exact hkeys.symm
  | handleErrors code =>
      rw [hcodes]
      cases gate with
      | access => exact absurd rfl hgate
      | _ => by_cases hcode : e.code = code <;> simp [Counter.tallies, hcode]
  | _ => rw [Counter.countP_tallies rfl, Counter.countP_tallies rfl, if_neg nofun]

/-- A look-up for writing counts what it refuses: a wrong key where that is found, and every
error by its code. -/
theorem openWritable_refuses {c : Nat} (hfirst : w.desk.Single → c = 0) (l : LedgerId)
    (presented : Bytes) (replay : Bool) :
    Refuses (refusalOf .writing (w.openWritable c l presented replay).1) w
      (w.openWritable c l presented replay).2 := by
  have hcounted {w' : Host} {e : HandleError} (h : Refuses [⟨.access, e⟩] w w') :
      Refuses [⟨.writing, e⟩] w (w'.countRefusal e) := by
    exact countRefusal_refuses .writing nofun (fun _ => rfl) (by cases e <;> rfl) h
  have hfind := findHandle_refuses hfirst l presented replay
  unfold openWritable
  split
  next heq =>
    rw [heq] at hfind
    exact hcounted hfind
  next h w₁ heq =>
    rw [heq] at hfind
    have hcheck := w₁.checkAccess_refuses h presented
    split
    next hdenied =>
      rw [hdenied] at hcheck
      exact hcounted (hfind.trans hcheck)
    next hgranted =>
      rw [hgranted] at hcheck
      exact hfind.trans hcheck

/-- A look-up for reading counts what it is refused, whichever step refuses it. -/
theorem openReader_refuses {c : Nat} (hfirst : w.desk.Single → c = 0) (l : LedgerId) :
    Refuses (refusalOf .reading (w.openReader c l).1) w (w.openReader c l).2 := by
  have hcreate := w.createReader_desk l
  unfold openReader
  split
  next => exact .refl w.desk
  next =>
    split
    next e w₁ heq =>
      rw [heq] at hcreate
      exact countRefusal_refuses .reading nofun (fun _ => rfl) (by cases e <;> rfl)
        (refuses_of_desk hcreate)
    next r w₁ heq =>
      rw [heq] at hcreate
      have hmakes := refuses_of_desk hcreate
      have hsingle := fun h => hfirst (hmakes.single_iff.mp h)
      refine hmakes.trans (showCached_refuses hsingle .readOnly ?_)
      rintro x (_ | _) hne
      · rfl
      · exact absurd rfl hne

/-! ### Deletions -/

/-- A refusal that an event tells of need not be answered. -/
theorem refuses_emit {e : Event} (h : Refuses e.refusal?.toList w w') :
    Refuses [] w (w'.emit e) where
  counted c := by
    have htold : (w'.emit e).desk.toldRefusals = w'.desk.toldRefusals ++ e.refusal?.toList := by
      change (w'.events ++ [e]).filterMap _ = _
      rw [List.filterMap_append, filterMap_singleton]
      rfl
    have hbefore := h.counted c
    rw [htold, List.countP_append]
    change w'.desk.counts c + _ = _
    rw [List.countP_nil]
    omega
  shown := h.shown
  next := h.next
  held := h.held
  observers := h.observers

/-- An observer that looks a ledger up again reports what it was answered, and that is
counted. -/
theorem tellObserver_refuses {observer : Observer}
    (hfirst : ∀ r, observer.reopening = some r → w.desk.Single → r.cache = 0) (l : LedgerId)
    (wasFenced : Bool) : Refuses [] w (w.tellObserver observer l wasFenced) := by
  unfold tellObserver
  dsimp only
  split
  next => exact refuses_of_desk (w.emit_desk rfl)
  next r hr =>
    have hopens := openWritable_refuses (hfirst r hr) l r.key r.replay
    refine refuses_emit ?_
    revert hopens
    rcases w.openWritable r.cache l r.key r.replay with ⟨e | h, w₁⟩ <;> exact id

/-- Being told refuses nobody but the observer that looks the ledger up, who says so itself. -/
theorem tellSubscriber_refuses {who : Subscriber} (hpresent : w.isPresent who = true)
    (l : LedgerId) (wasFenced : Bool) : Refuses [] w (tellSubscriber l wasFenced w who) := by
  unfold tellSubscriber
  split
  next c => exact tellCache_refuses (fun h => h c (.inl hpresent)) l wasFenced
  next o =>
    split
    next => exact .refl w.desk
    next observer ho =>
      refine tellObserver_refuses (fun r hr h => ?_) l wasFenced
      exact h _ (.inr ⟨o, observer, r, ho, hr, rfl⟩)

theorem Refuses.isPresent (h : Refuses rs w w') (who : Subscriber) :
    w'.isPresent who = w.isPresent who := by
  cases who with
  | cache c => exact h.held c
  | observer o => exact congrArg (Arena.holds · o) h.observers

/-- One subscriber after the other is told, and all stay who they are. -/
theorem tellSubscribers_refuses (l : LedgerId) (wasFenced : Bool) {subscribers : List Subscriber}
    (hpresent : ∀ who ∈ subscribers, w.isPresent who = true) :
    Refuses [] w (subscribers.foldl (tellSubscriber l wasFenced) w) := by
  induction subscribers generalizing w with
  | nil => exact .refl w.desk
  | cons who subscribers ih =>
      have htold := tellSubscriber_refuses (hpresent who List.mem_cons_self) l wasFenced
      refine htold.trans (ih fun who' hwho' => ?_)
      exact (Refuses.isPresent htold who').trans (hpresent who' (List.mem_cons_of_mem _ hwho'))

/-- A deletion refuses nobody itself: the refusals are those of the observers that it tells. -/
theorem remove_refuses (w : Host) (access : Access) (l : LedgerId) :
    Refuses [] w (w.remove access l).2 := by
  have hsent := refuses_of_desk (w.send_desk access .remove (Store.remove w.isPresent l))
  unfold Host.remove
  split
  next heq => rwa [heq] at hsent
  next wasFenced subscribers w₁ heq =>
    rw [heq] at hsent
    obtain ⟨-, -, hfilter, -⟩ := Store.remove_spec (send_ok heq).1
    refine hsent.trans (tellSubscribers_refuses l wasFenced fun who hwho => ?_)
    rw [hfilter] at hwho
    exact (Refuses.isPresent hsent who).trans (List.mem_filter.mp hwho).2

end Host

/-! ### Operations -/

/-- The refusal that an operation is answered with. -/
def Op.refusal? : Op → Except Failure Answer → Option Refusal
  | .openWritable .., .error (.handle e) => some ⟨.writing, e⟩
  | .openReader .., .error (.handle e) => some ⟨.reading, e⟩
  | .use (.writable _) (.access _), .error (.handle e) => some ⟨.access, e⟩
  | _, _ => none

/-- Whether somebody who may hear of deletions comes or goes. -/
def Op.changesMembers : Op → Bool
  | .observe _ | .unobserve _ | .createCache _ | .releaseCache _ => true
  | _ => false

/-- Whether a happening may do anything that callers of caches see. -/
def Happening.reachesCaches : Happening → Bool
  | .act _ | .tell .. => true
  | _ => false

namespace Host

/-- An operation on something that the host holds, or else nothing. -/
theorem whenHeld_refuses {op : Op} {held : Bool} {r : Except Failure Answer × Host}
    (hop : op.refusal? (.error .unknown) = none)
    (h : held = true → Refuses (op.refusal? r.1).toList w r.2) :
    Refuses (op.refusal? (w.whenHeld held r).1).toList w (w.whenHeld held r).2 := by
  unfold whenHeld
  split
  next hheld => exact h hheld
  next =>
    rw [hop]
    exact .refl w.desk

/-- An operation that concerns no look-up is not refused with anything that is counted. -/
theorem refusal?_of_aside {op : Op} (hop : op.concernsCaches = false)
    (answer : Except Failure Answer) : op.refusal? answer = none := by
  unfold Op.refusal?
  split
  next => cases hop
  next => cases hop
  next => cases hop
  next => rfl

/-- Every operation counts what it is refused with, and every look-up in the middle of it. -/
theorem perform_refuses (w : Host) {op : Op} (hop : op.changesMembers = false) :
    Refuses (op.refusal? (w.perform op).1).toList w (w.perform op).2 := by
  cases hcaches : op.concernsCaches with
  | false =>
      rw [refusal?_of_aside hcaches]
      exact refuses_of_desk (w.perform_desk hcaches)
  | true =>
      cases op with
      | remove access l => exact (answer_host _ _ _).symm ▸ w.remove_refuses access l
      | openWritable c l presented replay =>
          refine whenHeld_refuses rfl fun hheld => ?_
          have hopens := openWritable_refuses (fun h => h c (.inl hheld)) l presented replay
          -- what is counted goes by the answer, so both are taken apart together
          revert hopens
          rcases w.openWritable c l presented replay with ⟨e | h, w'⟩ <;> exact id
      | openReader c l =>
          refine whenHeld_refuses rfl fun hheld => ?_
          have hopens := openReader_refuses (fun h => h c (.inl hheld)) l
          revert hopens
          rcases w.openReader c l with ⟨e | r, w'⟩ <;> exact id
      | tellCache c l wasFenced =>
          refine whenHeld_refuses rfl fun hheld => ?_
          exact tellCache_refuses (fun h => h c (.inl hheld)) l wasFenced
      | use handle call =>
          cases handle with
          | reader r => cases hcaches
          | writable h =>
              cases call with
              | access presented =>
                  refine whenHeld_refuses rfl fun _ => ?_
                  have hcheck := w.checkAccess_refuses h presented
                  unfold use useWritable
                  dsimp only
                  revert hcheck
                  rcases w.checkAccess h presented with ⟨e | _, w'⟩ <;> exact id
              | _ => cases hcaches
      | observe | unobserve | createCache | releaseCache => cases hop
      | _ => cases hcaches

/-! ### Courses -/

/-- The refusal that whoever acts is answered with. An observer who looks a ledger up again
when it is told of a deletion says so in an event. -/
def refusal? (w : Host) : Happening → Option Refusal
  | .act op => op.refusal? (w.perform op).1
  | .subscribe _ | .remove .. | .tell .. | .decide _ | .handOn .. | .pass _ => none

/-- The refusals that those who acted were answered with, oldest first. -/
def answered (w : Host) : List Happening → List Refusal
  | [] => []
  | first :: course => (w.refusal? first).toList ++ (w.happen first).answered course

/-- What callers were refused with over a course: in answers, and when observers who were
told of deletions looked ledgers up again. -/
def refused (w : Host) (course : List Happening) : List Refusal :=
  w.answered course ++ (w.afterAll course).toldRefusals

/-- A cache that is told counts nothing that counts here, also if nobody holds it any
more. -/
theorem tellCache_counts (w : Host) (c : Nat) (l : LedgerId) (wasFenced : Bool) :
    (w.tellCache c l wasFenced).refusals = w.refusals ∧
      (w.tellCache c l wasFenced).toldRefusals = w.toldRefusals := by
  have hdrops (w : Host) : (w.dropHandles c l).refusals = w.refusals ∧
      (w.dropHandles c l).toldRefusals = w.toldRefusals := ⟨rfl, rfl⟩
  unfold tellCache
  dsimp only
  split
  next =>
    obtain ⟨memory, hdesk⟩ := w.rememberDeletion_desk c l
    obtain ⟨hcounts, htold⟩ := hdrops (w.rememberDeletion c l)
    exact ⟨hcounts.trans (congrArg Desk.counts hdesk),
      htold.trans (congrArg Desk.toldRefusals hdesk)⟩
  next => exact hdrops w

/-- Neither a step of a fence call nor a removal nor a subscription is seen, and time
passes unseen. -/
theorem happen_desk (w : Host) {next : Happening} (hnext : next.reachesCaches = false) :
    (w.happen next).desk = w.desk := by
  cases next with
  | act | tell => cases hnext
  | subscribe who =>
      unfold happen
      dsimp only
      split <;> rfl
  | remove access l => exact w.send_desk access .remove _
  | decide h => exact w.decideFence_desk h
  | handOn path t h o =>
      have hsubmits := desk_holdsOfFencing.submissions
      exact hsubmits.submitMarker (hsubmits.submit path) w t h o
  | pass nanos => rfl

/-- What an operation counted is what its observers reported and what it was itself
answered. -/
theorem perform_counted (w : Host) (op : Op) (c : Counter) :
    (w.perform op).2.refusals c + w.toldRefusals.countP c.tallies =
      w.refusals c + (w.perform op).2.toldRefusals.countP c.tallies +
        (op.refusal? (w.perform op).1).toList.countP c.tallies := by
  cases hmembers : op.changesMembers with
  | false => exact (w.perform_refuses hmembers).counted c
  | true =>
      cases op with
      | observe | createCache => rfl
      | unobserve | releaseCache =>
          exact whenHeld_host (P := fun w' => w'.refusals c + _ = _ + w'.toldRefusals.countP _ + 0)
            rfl rfl
      | _ => cases hmembers

/-- Whatever happens is counted, also if somebody is told who is gone in the meantime. -/
theorem happen_counted (w : Host) (next : Happening) (c : Counter) :
    (w.happen next).refusals c + w.toldRefusals.countP c.tallies =
      w.refusals c + (w.happen next).toldRefusals.countP c.tallies +
        (w.refusal? next).toList.countP c.tallies := by
  cases next with
  | act op => exact w.perform_counted op c
  | tell who l wasFenced =>
      by_cases hpresent : w.isPresent who = true
      · exact (tellSubscriber_refuses hpresent l wasFenced).counted c
      · cases who with
        | cache id =>
            obtain ⟨hcounts, htold⟩ := w.tellCache_counts id l wasFenced
            change (w.tellCache id l wasFenced).refusals c + _ =
              _ + (w.tellCache id l wasFenced).toldRefusals.countP _ + 0
            rw [hcounts, htold, Nat.add_zero]
        | observer o =>
            have hgone : w.observers.get? o = none := Option.not_isSome_iff_eq_none.mp hpresent
            have hsame : w.happen (.tell (.observer o) l wasFenced) = w := by
              change tellSubscriber l wasFenced w (.observer o) = w
              unfold tellSubscriber
              dsimp only
              rw [hgone]
            rw [hsame]
            rfl
  | _ => exact (refuses_of_desk (w.happen_desk rfl)).counted c

/-- By induction on the course: what a happening adds to a counter are the refusals that it
is answered with, and those that its events tell of. -/
theorem afterAll_counted (w : Host) (course : List Happening) (c : Counter) :
    (w.afterAll course).refusals c + w.toldRefusals.countP c.tallies =
      w.refusals c + (w.refused course).countP c.tallies := by
  unfold refused
  rw [List.countP_append]
  induction course generalizing w with
  | nil => exact (congrArg _ (Nat.zero_add _)).symm
  | cons first course ih =>
      have hfirst := w.happen_counted first c
      have hrest := ih (w.happen first)
      change ((w.happen first).afterAll course).refusals c + _ =
        _ + (List.countP _ (_ ++ _) + ((w.happen first).afterAll course).toldRefusals.countP _)
      rw [List.countP_append]
      omega

end Host

/-! ### Courses with one cache -/

/-- Whether a cache is made. -/
def Happening.makesCache : Happening → Bool
  | .act (.createCache _) => true
  | _ => false

/-- Whether nobody lets go of the first cache, no observer comes in who asks another one, and
no other one is told of a deletion. -/
def Happening.keepsToFirst : Happening → Bool
  | .act (.releaseCache c) => c ≠ 0
  | .act (.observe ⟨_, some r⟩) => r.cache = 0
  | .tell (.cache c) _ _ => c = 0
  | _ => true

/-- A course with one cache, which is not let go. -/
structure SingleCache (course : List Happening) : Prop where
  made : course.countP Happening.makesCache ≤ 1
  kept : ∀ next ∈ course, next.keepsToFirst = true

/-- A course that creates no cache may follow one with a single cache. -/
theorem SingleCache.append {course course' : List Happening} (h : SingleCache course)
    (h' : ∀ next ∈ course', next.keepsToFirst = true ∧ next.makesCache = false) :
    SingleCache (course ++ course') where
  made := by
    have hnone : course'.countP Happening.makesCache = 0 :=
      List.countP_eq_zero.mpr fun next hnext => by simp [(h' next hnext).2]
    rw [List.countP_append, hnone]
    exact h.made
  kept next hnext :=
    (List.mem_append.mp hnext).elim (h.kept next) fun hlater => (h' next hlater).1

namespace Host

/-- Nobody asks a cache other than the first one, and the gauges show what that holds. -/
structure Shows (w : Host) : Prop where
  single : w.desk.Single
  shown : ∀ kind, w.desk.shown kind = (w.cacheAt 0).held kind

theorem Shows.start (faults : Option FaultPlan) : Shows (start faults) where
  single c := by
    rintro (hheld | ⟨o, x, r, ho, -⟩)
    · cases hheld
    · cases ho
  shown kind := by cases kind <;> rfl

theorem Shows.refuses (h : Shows w) (hstep : Refuses rs w w') : Shows w' :=
  ⟨hstep.single_iff.mpr h.single, fun kind => hstep.shown h.single kind (h.shown kind)⟩

/-- The first cache is made: it holds nothing, and nothing was shown before. -/
theorem Shows.createCache (h : Shows w) (hfirst : w.caches.next = 0) (config : Config) :
    Shows (w.perform (.createCache config)).2 where
  single c := by
    rintro (hheld | hasked)
    · by_cases hc : c = w.caches.next
      · exact hc.trans hfirst
      · refine h.single c (.inl ?_)
        change (Arena.get? (w.caches.add _) c).isSome = true at hheld
        rwa [Arena.get?_add, if_neg hc] at hheld
    · exact h.single c (.inr hasked)
  shown kind := by
    have hnone : w.cacheAt 0 = default := by
      unfold cacheAt
      rw [Arena.get?_of_next_le _ (Nat.le_of_eq hfirst)]
      rfl
    have hmade : (w.perform (.createCache config)).2.cacheAt 0 = .create config := by
      change ((w.caches.add _).get? 0).getD default = _
      rw [Arena.get?_add, if_pos hfirst.symm]
      rfl
    rw [hmade]
    refine (h.shown kind).trans ?_
    rw [hnone]
    cases kind <;> rfl

/-- An observer that keeps to the first cache does so whenever it is told. -/
theorem Shows.observe (h : Shows w) {observer : Observer}
    (hkept : (Happening.act (.observe observer)).keepsToFirst = true) :
    Shows (w.perform (.observe observer)).2 where
  single c := by
    rintro (hheld | ⟨o, x, r, ho, hr, hc⟩)
    · exact h.single c (.inl hheld)
    · change (w.observers.add observer).get? o = some x at ho
      rw [Arena.get?_add] at ho
      split at ho
      next =>
        cases ho
        obtain ⟨label, reopening⟩ := observer
        cases hr
        exact hc.symm.trans (of_decide_eq_true hkept)
      next => exact h.single c (.inr ⟨o, x, r, ho, hr, hc⟩)
  shown := h.shown

/-- An observer that is let go looks nothing up any more. -/
theorem Shows.unobserve (h : Shows w) (id : Nat) : Shows (w.perform (.unobserve id)).2 := by
  refine whenHeld_host h ⟨fun c => ?_, h.shown⟩
  rintro (hheld | ⟨o, x, r, ho, hr, hc⟩)
  · exact h.single c (.inl hheld)
  · change (w.observers.release id).get? o = some x at ho
    rw [Arena.get?_release] at ho
    split at ho
    next => cases ho
    next => exact h.single c (.inr ⟨o, x, r, ho, hr, hc⟩)

/-- A cache other than the first one is not there to be let go. -/
theorem Shows.releaseCache (h : Shows w) {c : Nat} (hc : c ≠ 0) :
    Shows (w.perform (.releaseCache c)).2 := by
  have hnone : ¬ w.caches.holds c = true := fun hheld => hc (h.single c (.inl hheld))
  change Shows (w.whenHeld _ _).2
  unfold whenHeld
  rw [if_neg hnone]
  exact h

/-- Each operation leaves the gauges showing what the only cache holds. -/
theorem Shows.perform (h : Shows w) {op : Op} (hkept : (Happening.act op).keepsToFirst = true)
    (hfirst : (Happening.act op).makesCache = true → w.caches.next = 0) :
    Shows (w.perform op).2 := by
  cases hmembers : op.changesMembers with
  | false => exact h.refuses (w.perform_refuses hmembers)
  | true =>
      cases op with
      | observe observer => exact h.observe hkept
      | unobserve id => exact h.unobserve id
      | createCache config => exact h.createCache (hfirst rfl) config
      | releaseCache c => exact h.releaseCache (of_decide_eq_true hkept)
      | _ => cases hmembers

/-- Somebody is told. The first cache shows what it holds then, and an observer who is gone
does nothing. -/
theorem Shows.tell (h : Shows w) {who : Subscriber} {l : LedgerId} {wasFenced : Bool}
    (hkept : (Happening.tell who l wasFenced).keepsToFirst = true) :
    Shows (tellSubscriber l wasFenced w who) := by
  cases who with
  | cache c => exact h.refuses (tellCache_refuses (fun _ => of_decide_eq_true hkept) l wasFenced)
  | observer o =>
      unfold tellSubscriber
      dsimp only
      split
      next => exact h
      next observer ho =>
        refine h.refuses (tellObserver_refuses (fun r hr hsingle => ?_) l wasFenced)
        exact hsingle r.cache (.inr ⟨o, observer, r, ho, hr, rfl⟩)

theorem Shows.happen (h : Shows w) {next : Happening} (hkept : next.keepsToFirst = true)
    (hfirst : next.makesCache = true → w.caches.next = 0) : Shows (w.happen next) := by
  cases next with
  | act op => exact h.perform hkept hfirst
  | tell who l wasFenced => exact h.tell hkept
  | _ => exact h.refuses (refuses_of_desk (w.happen_desk rfl))

/-- Only the creation of a cache moves the number of the next one. -/
theorem perform_caches_next (w : Host) (op : Op) :
    (w.perform op).2.caches.next =
      w.caches.next + if (Happening.act op).makesCache then 1 else 0 := by
  cases hmembers : op.changesMembers with
  | false =>
      have hnot : (Happening.act op).makesCache = false := by
        cases op <;> first | rfl | cases hmembers
      rw [hnot]
      exact (w.perform_refuses hmembers).next
  | true =>
      cases op with
      | observe => rfl
      | createCache => exact Arena.next_add _ _
      | unobserve => exact whenHeld_host (P := fun w' => w'.caches.next = _) rfl rfl
      | releaseCache =>
          exact whenHeld_host (P := fun w' => w'.caches.next = _) rfl (Arena.next_release _ _)
      | _ => cases hmembers

/-- A cache is numbered when it is made, and no number is given out otherwise. -/
theorem happen_caches_next (w : Host) (next : Happening) :
    (w.happen next).caches.next = w.caches.next + if next.makesCache then 1 else 0 := by
  cases hreaches : next.reachesCaches with
  | false =>
      have hnot : next.makesCache = false := by
        cases next <;> first | rfl | cases hreaches
      rw [hnot]
      exact (refuses_of_desk (w.happen_desk hreaches)).next
  | true =>
      cases next with
      | act op => exact w.perform_caches_next op
      | tell who l wasFenced => exact (tellSubscriber_keepsAudience w l wasFenced who).next
      | _ => cases hreaches

/-- By induction on the course. What is still to come makes no cache once there is one. -/
theorem Shows.afterAll {course : List Happening} (h : Shows w)
    (hmade : w.caches.next + course.countP Happening.makesCache ≤ 1)
    (hkept : ∀ next ∈ course, next.keepsToFirst = true) : Shows (w.afterAll course) := by
  induction course generalizing w with
  | nil => exact h
  | cons first course ih =>
      rw [List.countP_cons] at hmade
      have hnext := w.happen_caches_next first
      have hrest : (w.happen first).caches.next + course.countP Happening.makesCache ≤ 1 := by
        omega
      have hstep : Shows (w.happen first) := by
        refine h.happen (hkept first List.mem_cons_self) fun hmakes => ?_
        rw [if_pos hmakes] at hmade
        omega
      exact ih hstep hrest fun next hmem => hkept next (List.mem_cons_of_mem _ hmem)

theorem shows_of_singleCache (faults : Option FaultPlan) {course : List Happening}
    (h : SingleCache course) : Shows ((start faults).afterAll course) := by
  refine (Shows.start faults).afterAll ?_ h.kept
  change 0 + _ ≤ 1
  rw [Nat.zero_add]
  exact h.made

/-- What those who are told of a deletion do when they keep to the cache that there is. -/
def Conduct.KeepsSingle (conduct : Conduct) : Prop :=
  ∀ who w, ∀ next ∈ conduct who w, next.keepsToFirst = true ∧ next.makesCache = false

/-- A course in which every subscriber keeps to the first cache keeps to it as a whole. -/
theorem tellings_single {conduct : Conduct} (hacts : conduct.KeepsSingle) (l : LedgerId)
    (wasFenced : Bool) {subscribers : List Subscriber}
    (hfirst : ∀ c, .cache c ∈ subscribers → c = 0) (w : Host) :
    ∀ next ∈ tellings l wasFenced conduct subscribers w,
      next.keepsToFirst = true ∧ next.makesCache = false := by
  induction subscribers generalizing w with
  | nil => exact fun next hnext => absurd hnext List.not_mem_nil
  | cons who subscribers ih =>
      have hrest := ih fun c hc => hfirst c (List.mem_cons_of_mem _ hc)
      unfold tellings
      simp only [List.mem_cons, List.mem_append]
      rintro next (rfl | hact | hlater)
      · refine ⟨?_, rfl⟩
        cases who with
        | cache c => exact decide_eq_true (hfirst c List.mem_cons_self)
        | observer o => rfl
      · exact hacts _ _ next hact
      · exact hrest _ next hlater

/-- Who is told of a deletion on a host with one cache keeps to that cache. -/
theorem announcing_single (h : Shows w) {conduct : Conduct} (hacts : conduct.KeepsSingle)
    (access : Access) (l : LedgerId) :
    ∀ next ∈ w.announcing access l conduct,
      next.keepsToFirst = true ∧ next.makesCache = false := by
  unfold announcing
  intro next hnext
  rcases List.mem_cons.mp hnext with rfl | htold
  · exact ⟨rfl, rfl⟩
  · split at htold
    next => cases htold
    next wasFenced subscribers w' hremoval =>
      obtain ⟨-, -, -, hfilter, -⟩ := removal_ok hremoval
      refine tellings_single hacts l wasFenced (fun c hc => ?_) w' next htold
      rw [hfilter] at hc
      exact h.single c (.inl (List.mem_filter.mp hc).2)

/-- After everything that may have happened on a host, also in the midst of deletions, the
wrong keys that were counted are those that look-ups for writing and writable handles refused,
and the errors that were counted by a code are those that look-ups for writing and for reading
were refused with, whoever made them. Each refused look-up is counted once. If the host has
one cache, which is not let go, then the gauges show how many handles of each kind it holds.
Deletions are such courses, whatever those who are told of them do. -/
theorem cache_metrics_agree (faults : Option FaultPlan) (past : List Happening) :
    let w := (start faults).afterAll past
    let refused := (start faults).refused past
    w.metrics.count .unauthorized = refused.countP Counter.unauthorized.tallies ∧
      (∀ code, w.metrics.count (.handleErrors code) =
        refused.countP (Counter.handleErrors code).tallies) ∧
      (SingleCache past →
        ∀ kind, (w.metrics.gauges.get? kind).getD 0 = (w.cacheAt 0).held kind) ∧
      ∀ access l conduct, (w.announce access l conduct).host =
          (start faults).afterAll (past ++ w.announcing access l conduct) ∧
        (SingleCache past → conduct.KeepsSingle →
          SingleCache (past ++ w.announcing access l conduct)) := by
  intro w refused
  have hcounted (c : Counter) (hc : c.countsRefusals = true) :
      w.metrics.count c = refused.countP c.tallies := by
    have hall := afterAll_counted (start faults) past c
    change w.refusals c + 0 =
      (if c.countsRefusals then 0 else 0) + refused.countP c.tallies at hall
    unfold refusals at hall
    rw [if_pos hc, if_pos hc, Nat.zero_add] at hall
    exact hall
  refine ⟨hcounted _ rfl, fun code => hcounted _ rfl, ?_, fun access l conduct => ⟨?_, ?_⟩⟩
  · exact fun hsingle => (shows_of_singleCache faults hsingle).shown
  · rw [afterAll_append]
    exact announce_course w access l conduct
  · intro hsingle hacts
    exact hsingle.append (announcing_single (shows_of_singleCache faults hsingle) hacts access l)

/-- Two ledgers are opened, the first of them under a wrong key, too, and fenced. -/
def opened : List Happening :=
  [.act (.createCache .trial), .act (.observe ⟨"a", none⟩),
    .act (.observe ⟨"b", some ⟨0, [3], true⟩⟩), .act (.openWritable 0 ⟨1⟩ [1] false),
    .act (.openWritable 0 ⟨1⟩ [7] false), .act (.use (.writable 0) (.access [7])),
    .act (.openReader 0 ⟨1⟩), .act (.openWritable 0 ⟨2⟩ [2] false), .pass 1,
    .act (.use (.writable 0) .fence)]

/-- The first observer looks the ledger up for reading, which is not there, another one with a
wrong key, and opens the ledger anew, which the second observer then has the wrong key for. -/
def busy : Conduct
  | .observer 0, _ =>
      [.act (.openReader 0 ⟨1⟩), .act (.openWritable 0 ⟨2⟩ [7] false),
        .act (.use (.writable 1) (.access [7])), .act (.openWritable 0 ⟨1⟩ [2] true)]
  | _, _ => []

/-- Of the wrong keys, three were presented in the midst of the deletion. The handles that are
left are that of the other ledger and that of the first observer. -/
theorem reopened_metrics :
    SingleCache opened ∧ busy.KeepsSingle ∧
      let host := (((start none).afterAll opened).announce .planned ⟨1⟩ busy).host
      host.metrics.count .unauthorized = 5 ∧ host.metrics.count (.handleErrors .unauthorized) = 3 ∧
        (host.metrics.gauges.get? .writable).getD 0 = 2 ∧
        (host.metrics.gauges.get? .readOnly).getD 0 = 0 := by
  have hopened : SingleCache opened := ⟨by decide, by decide⟩
  have hbusy : busy.KeepsSingle := by
    intro who w
    unfold busy
    split <;> simp [Happening.keepsToFirst, Happening.makesCache]
  obtain ⟨-, -, -, hdeletions⟩ := cache_metrics_agree none opened
  obtain ⟨hhost, hsingle⟩ := hdeletions .planned ⟨1⟩ busy
  obtain ⟨hkeys, hcodes, hshown, -⟩ := cache_metrics_agree none
    (opened ++ ((start none).afterAll opened).announcing .planned ⟨1⟩ busy)
  refine ⟨hopened, hbusy, ?_⟩
  rw [hhost]
  have hgauges := hshown (hsingle hopened hbusy)
  exact ⟨hkeys.trans (by decide), (hcodes _).trans (by decide),
    (hgauges .writable).trans (by decide), (hgauges .readOnly).trans (by decide)⟩

end Host

end FencedLedger
