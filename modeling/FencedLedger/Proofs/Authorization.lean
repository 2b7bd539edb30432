import FencedLedger.Proofs.CacheCoherence
import FencedLedger.Proofs.Timelines

/-!
# Who gets a writable handle

A cached handle answers for its own key, and a ledger without one for the key
that the store holds. Between operations the two agree, because caches and store
are coherent. So a look-up is answered by three facts: whether the cache holds a
handle of the ledger, whether it remembers the ledger as fenced and deleted, and
which key the store has. This holds of stores without planned faults, which may
answer instead, and between whole operations: in the middle of a deletion caches
and store differ.
-/

namespace FencedLedger

namespace Host

variable {w w' : Host} {c h : Nat} {l : LedgerId} {presented : Bytes} {replay : Bool}

/-- A cache has a handle of the ledger, or may make one. -/
def Admits (w : Host) (c : Nat) (l : LedgerId) (replay : Bool) : Prop :=
  (w.cacheAt c).writable.contains l = true ∨ replay = true ∨
    (w.cacheAt c).recalls w.now l = false

/-- The store has no ledger under the id, or has it under the presented key. -/
def KeyFits (w : Host) (l : LedgerId) (presented : Bytes) : Prop :=
  w.store.keyOf? l = none ∨ w.store.keyOf? l = some ⟨presented⟩

/-- What a look-up for writing is answered, and what it leaves in the store. -/
structure Authorizes (w : Host) (c : Nat) (l : LedgerId) (presented : Bytes) (replay : Bool)
    (r : Except HandleError Nat × Host) : Prop where
  granted : (∃ h, r.1 = .ok h) ↔ w.Admits c l replay ∧ w.KeyFits l presented
  fencedAndDeleted : ¬ w.Admits c l replay → r.1 = .error (.fencedAndDeleted l)
  unauthorized : w.Admits c l replay → ¬ w.KeyFits l presented →
    r.1 = .error (.unauthorized l)
  kept : (∀ h, r.1 ≠ .ok h) ∨ w.store.ledgers.contains l = true → r.2.store = w.store
  created : (∃ h, r.1 = .ok h) → w.store.ledgers.contains l = false →
    r.2.store = { w.store with
      ledgers := w.store.ledgers.insert l
        { key := ⟨presented⟩, fenced := false, confirmed := .unset, explicitConfirmed := none,
          entries := .empty, watches := .empty } }

/-! ### The steps of a look-up -/

theorem checkAccess_of_get? {x : Handle} (hx : w.handles.get? h = some x) (presented : Bytes) :
    (w.checkAccess h presented).1 =
      if x.key.accepts presented then .ok () else .error (.unauthorized x.ledger) := by
  unfold checkAccess
  rw [handleAt_of_get? hx]
  dsimp only
  split <;> rfl

/-- The key of a ledger that is there is compared, and nothing else is asked. -/
theorem checkStoredKey_of_unplanned (hunplanned : w.faults = none) (l : LedgerId)
    (presented : Bytes) :
    w.checkStoredKey l presented =
      match w.store.keyOf? l with
      | none => (.ok (), w)
      | some key => if key.accepts presented then (.ok (), w) else w.refuseKey l := by
  unfold checkStoredKey
  rw [call_of_unplanned hunplanned]
  unfold ask Store.key Store.look Store.keyOf?
  cases w.store.ledgers.get? l <;> rfl

/-- A key that fits is bound without an error: the ledger has it already, or is created with
it. -/
theorem bindKey_of_fits (hfits : w.KeyFits l presented) :
    ∃ s, Store.bindKey l ⟨presented⟩ w.store = .ok ((), s) := by
  unfold Store.bindKey
  rcases hfits with hnone | hsame
  · rw [Store.keyOf?_eq_none_iff.mp hnone]
    exact ⟨_, rfl⟩
  · obtain ⟨x, hx, hkey⟩ := Option.map_eq_some_iff.mp hsame
    rw [hx]
    dsimp only
    rw [if_pos (MasterKey.accepts_iff.mpr hkey)]
    exact ⟨_, rfl⟩

/-- Under a key that fits, a handle of the ledger is made. -/
theorem obtainHandle_of_fits (hunplanned : w.faults = none)
    (huncached : (w.cacheAt c).writable.get? l = none) (hfits : w.KeyFits l presented) :
    ∃ w' ack, w.obtainHandle c l presented = (.ok w.handles.next, w') ∧
      w'.handles.get? w.handles.next = some (.create l ⟨presented⟩ ack) := by
  have hcheck : w.checkStoredKey l presented = (.ok (), w) := by
    rw [checkStoredKey_of_unplanned hunplanned]
    rcases hfits with hnone | hsame
    · rw [hnone]
    · rw [hsame]
      exact if_pos (MasterKey.accepts_iff.mpr rfl)
  obtain ⟨s, hbound⟩ := bindKey_of_fits hfits
  unfold obtainHandle createHandle
  rw [huncached]
  dsimp only
  rw [hcheck]
  dsimp only
  rw [call_of_unplanned hunplanned]
  unfold ask
  rw [hbound]
  exact ⟨_, _, rfl, Arena.get?_add_next _ _⟩

/-- Without a cached handle, the key that the store has decides, and a wrong one is refused. -/
theorem obtainHandle_of_misfit (hunplanned : w.faults = none)
    (huncached : (w.cacheAt c).writable.get? l = none) (hmisfit : ¬ w.KeyFits l presented) :
    (w.obtainHandle c l presented).1 = .error (.unauthorized l) := by
  unfold obtainHandle
  rw [huncached]
  dsimp only
  rw [checkStoredKey_of_unplanned hunplanned]
  cases hkey : w.store.keyOf? l with
  | none => exact absurd (Or.inl hkey) hmisfit
  | some key =>
      have hrefused : ¬ key.accepts presented = true := by
        intro haccepted
        rw [MasterKey.accepts_iff] at haccepted
        exact hmisfit (Or.inr (haccepted ▸ hkey))
      dsimp only
      rw [if_neg hrefused]
      rfl

/-! ### The answer -/

/-- A handle that was found answers for its own key. -/
theorem openWritable_of_found (hfound : w.findHandle c l presented replay = (.ok h, w'))
    {x : Handle} (hx : w'.handles.get? h = some x) (hledger : x.ledger = l) :
    (w.openWritable c l presented replay).1 =
      if x.key.accepts presented then .ok h else .error (.unauthorized l) := by
  have hanswer := checkAccess_of_get? hx presented
  rw [hledger] at hanswer
  unfold openWritable
  rw [hfound]
  dsimp only
  split
  next hdenied =>
    rw [hdenied] at hanswer
    split at hanswer
    next => cases hanswer
    next hno =>
      cases hanswer
      rw [if_neg hno]
  next hgranted =>
    rw [hgranted] at hanswer
    split at hanswer
    next hyes => rw [if_pos hyes]
    next => cases hanswer

/-- If no handle is found, the look-up says why. -/
theorem openWritable_of_not_found {e : HandleError}
    (hfailed : (w.findHandle c l presented replay).1 = .error e) :
    (w.openWritable c l presented replay).1 = .error e := by
  unfold openWritable
  cases hfound : w.findHandle c l presented replay with
  | mk answer w₁ =>
      rw [hfound] at hfailed
      cases hfailed
      rfl

/-- A ledger that the cache may not make a handle of is refused before anything
else is looked at. -/
theorem openWritable_of_not_admits (hnot : ¬ w.Admits c l replay) (presented : Bytes) :
    ∃ w', w.openWritable c l presented replay = (.error (.fencedAndDeleted l), w') ∧
      w'.store = w.store := by
  unfold Admits at hnot
  simp only [not_or, Bool.not_eq_true, Bool.not_eq_false, Table.contains] at hnot
  obtain ⟨huncached, hreplay, hrecalls⟩ := hnot
  rw [Option.isSome_eq_false_iff, Option.isNone_iff_eq_none] at huncached
  unfold openWritable findHandle
  rw [huncached, hreplay, hrecalls]
  exact ⟨_, rfl, rfl⟩

/-- A look-up that has no handle yet and may have one goes on to make it. -/
theorem findHandle_of_admits (huncached : (w.cacheAt c).writable.get? l = none)
    (hadmits : w.Admits c l replay) (presented : Bytes) :
    w.findHandle c l presented replay =
      match w.obtainHandle c l presented with
      | (.error e, w) => (.error e, w)
      | (.ok h, w) => (.ok h, w.showCached c .writable) := by
  have hasked : (!replay && (w.cacheAt c).recalls w.now l) = false := by
    rcases hadmits with hcached | rfl | hforgot
    · simp [Table.contains, huncached] at hcached
    · rfl
    · rw [hforgot, Bool.and_false]
  unfold findHandle
  rw [huncached]
  dsimp only
  rw [hasked]
  rfl

variable {e : Epochs}

/-- The key decides, once a look-up is admitted. -/
structure KeyDecides (w : Host) (l : LedgerId) (presented : Bytes)
    (answer : Except HandleError Nat) : Prop where
  fits : w.KeyFits l presented → ∃ h, answer = .ok h
  misfits : ¬ w.KeyFits l presented → answer = .error (.unauthorized l)

/-- The key of a cached handle is the one that the store has. -/
theorem openWritable_of_cached (hco : Coherent e Nothing w) {x : Cache}
    (hx : w.caches.get? c = some x) (hcached : x.writable.get? l = some h) (presented : Bytes)
    (replay : Bool) :
    w.KeyDecides l presented (w.openWritable c l presented replay).1 := by
  obtain ⟨handle, hget, hledger, hstale | ⟨hkey, -⟩⟩ := hco.writable hx hcached
  · exact hstale.elim
  · have hfound : w.findHandle c l presented replay = (.ok h, w) := by
      have hat := cacheAt_of_get? hx
      unfold findHandle
      rw [hat, hcached]
    rw [openWritable_of_found hfound hget hledger]
    constructor
    case fits =>
      rintro (hnone | hsame)
      · cases hkey.symm.trans hnone
      · have haccepted := MasterKey.accepts_iff.mpr (Option.some.inj (hkey.symm.trans hsame))
        exact ⟨h, if_pos haccepted⟩
    case misfits =>
      intro hmisfit
      apply if_neg
      intro haccepted
      exact hmisfit (Or.inr (hkey.trans (congrArg some (MasterKey.accepts_iff.mp haccepted))))

/-- A handle is made with the key that the store has from then on. -/
theorem openWritable_of_uncached (hunplanned : w.faults = none)
    (huncached : (w.cacheAt c).writable.get? l = none) (hadmits : w.Admits c l replay)
    (presented : Bytes) :
    w.KeyDecides l presented (w.openWritable c l presented replay).1 := by
  have hfind := findHandle_of_admits huncached hadmits presented
  constructor
  case fits =>
    intro hfits
    obtain ⟨w₁, ack, hmade, hget⟩ := obtainHandle_of_fits hunplanned huncached hfits
    rw [hmade] at hfind
    refine ⟨w.handles.next, ?_⟩
    rw [openWritable_of_found hfind hget rfl]
    exact if_pos (MasterKey.accepts_iff.mpr rfl)
  case misfits =>
    intro hmisfit
    have hrefused := obtainHandle_of_misfit hunplanned huncached hmisfit
    apply openWritable_of_not_found
    rw [hfind]
    cases hobtained : w.obtainHandle c l presented with
    | mk answer w₁ =>
        rw [hobtained] at hrefused
        cases hrefused
        rfl

/-- A look-up that may go on to a handle is decided by the key that the store has. -/
theorem openWritable_of_admits (hco : Coherent e Nothing w) (hunplanned : w.faults = none)
    (hheld : w.caches.holds c = true) (hadmits : w.Admits c l replay) (presented : Bytes) :
    w.KeyDecides l presented (w.openWritable c l presented replay).1 := by
  obtain ⟨x, hx⟩ := Option.isSome_iff_exists.mp hheld
  cases hcached : (w.cacheAt c).writable.get? l with
  | some h =>
      have hat := cacheAt_of_get? hx
      exact openWritable_of_cached hco hx (hat ▸ hcached) presented replay
  | none => exact openWritable_of_uncached hunplanned hcached hadmits presented

/-! ### The store -/

/-- Whatever it is answered, a look-up creates its own ledger at most. -/
theorem openWritable_store (w : Host) (c : Nat) (l : LedgerId) (presented : Bytes)
    (replay : Bool) :
    (w.openWritable c l presented replay).2.store = w.store ∨
      Store.Creates l ⟨presented⟩ w.store (w.openWritable c l presented replay).2.store := by
  cases openWritable_opens w c l presented replay with
  | idle hidle => exact Or.inl hidle.store
  | makes hmade _ _ =>
      rcases Store.bindKey_cases hmade.bound with hcreates | ⟨hsame, -⟩
      · exact Or.inr hcreates
      · exact Or.inl hsame

/-- The ledger of a handle that was handed out is there afterwards. -/
theorem openWritable_creates (hco : Coherent e Nothing w) (hheld : w.caches.holds c = true)
    (hok : (w.openWritable c l presented replay).1 = .ok h)
    (habsent : w.store.keyOf? l = none) :
    Store.Creates l ⟨presented⟩ w.store (w.openWritable c l presented replay).2.store := by
  refine (openWritable_store w c l presented replay).resolve_left fun hsame => ?_
  obtain ⟨x, hx, hcached⟩ := openWritable_cached hheld hok
  have hafter := hco.opens (openWritable_opens w c l presented replay)
  obtain ⟨handle, -, -, hstale | ⟨hkey, -⟩⟩ := hafter.writable hx hcached
  · exact hstale.elim
  · rw [hsame, habsent] at hkey
    cases hkey

/-- The three facts decide how a look-up is answered, in every state that runs come to. -/
theorem Coherent.authorizes (hco : Coherent e Nothing w) (hunplanned : w.faults = none)
    (hheld : w.caches.holds c = true) (l : LedgerId) (presented : Bytes) (replay : Bool) :
    Authorizes w c l presented replay (w.openWritable c l presented replay) := by
  have hdecides (hadmits : w.Admits c l replay) :=
    openWritable_of_admits hco hunplanned hheld hadmits presented
  have hrefused : ¬ w.Admits c l replay →
      (w.openWritable c l presented replay).1 = .error (.fencedAndDeleted l) := by
    intro hnot
    obtain ⟨w', heq, -⟩ := openWritable_of_not_admits hnot presented
    rw [heq]
  constructor
  case granted =>
    constructor
    · rintro ⟨h, hok⟩
      have hadmits : w.Admits c l replay := by
        refine Classical.byContradiction fun hnot => ?_
        rw [hrefused hnot] at hok
        cases hok
      refine ⟨hadmits, Classical.byContradiction fun hmisfit => ?_⟩
      rw [(hdecides hadmits).misfits hmisfit] at hok
      cases hok
    · rintro ⟨hadmits, hfits⟩
      exact (hdecides hadmits).fits hfits
  case fencedAndDeleted => exact hrefused
  case unauthorized => exact fun hadmits => (hdecides hadmits).misfits
  case kept =>
    intro hcase
    rcases openWritable_store w c l presented replay with hsame | hcreates
    · exact hsame
    · rcases hcase with hfailed | hthere
      · -- what failed was not admitted, as any key fits an absent ledger
        have hnot : ¬ w.Admits c l replay := by
          intro hadmits
          obtain ⟨h, hok⟩ := (hdecides hadmits).fits (Or.inl hcreates.absent)
          exact hfailed h hok
        obtain ⟨w', heq, hsame⟩ := openWritable_of_not_admits hnot presented
        rw [heq]
        exact hsame
      · cases hthere.symm.trans (Store.contains_eq_false_iff.mpr hcreates.absent)
  case created =>
    rintro ⟨h, hok⟩ habsent
    exact (openWritable_creates hco hheld hok (Store.contains_eq_false_iff.mp habsent)).eq

/-! ### After a timeline -/

/-- On a timeline, too, caches and store are coherent between any two moments. -/
theorem live_coherent (hco : Coherent e Nothing w) (moments : List Moment) :
    ∃ e', Coherent e' Nothing (w.live moments) := by
  induction moments generalizing w e with
  | nil => exact ⟨e, hco⟩
  | cons moment moments ih =>
      cases moment with
      | act op => exact ih ((perform_effect w op).coherent hco)
      | pass nanos => exact ih (hco.upholds (pass_idle w nanos).upholds)

/-- After every timeline of a host without planned faults, each cache authorizes
look-ups exactly: by its handles, its memory and the stored key. -/
theorem openWritable_authorizes (moments : List Moment) {x : Cache}
    (hx : ((start none).live moments).caches.get? c = some x) (l : LedgerId) (presented : Bytes)
    (replay : Bool) :
    Authorizes ((start none).live moments) c l presented replay
      (((start none).live moments).openWritable c l presented replay) := by
  obtain ⟨e, hco⟩ := live_coherent (start_coherent none) moments
  have hunplanned := (live_onward (start none) moments).unplanned rfl
  have hheld : ((start none).live moments).caches.holds c = true := by
    unfold Arena.holds
    rw [hx]
    rfl
  exact hco.authorizes hunplanned hheld l presented replay

/-- A ledger is opened, fenced and deleted, and time passes. -/
def forgetting (nanos : Nat) : List Moment :=
  [.act (.createCache .trial), .act (.openWritable 0 ⟨1⟩ [0x6b] false),
    .act (.use (.writable 0) .fence), .act (.remove .planned ⟨1⟩), .pass nanos]

/-- The ledger is refused until its deletion has expired, and then created anew
under whichever key is presented. -/
theorem refused_until_expired :
    (((start none).live (forgetting 1)).openWritable 0 ⟨1⟩ [0x6b] false).1 =
        .error (.fencedAndDeleted ⟨1⟩) ∧
      ∃ h, (((start none).live (forgetting 1000000000)).openWritable 0 ⟨1⟩ [] false).1 =
        .ok h := by
  constructor
  · have hauthorizes := openWritable_authorizes (c := 0) (forgetting 1) rfl ⟨1⟩ [0x6b] false
    exact hauthorizes.fencedAndDeleted (by unfold Admits; decide)
  · have hauthorizes := openWritable_authorizes (c := 0) (forgetting 1000000000) rfl ⟨1⟩ [] false
    exact hauthorizes.granted.mpr (by unfold Admits KeyFits; decide)

end Host

end FencedLedger
