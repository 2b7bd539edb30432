import FencedLedger.Proofs.DeletionHistory

/-!
# Look-ups that race with deletions

A look-up for writing has three steps: it looks for a cached handle, it asks the
memory of deletions, and it makes a handle unless there is one by then. A deletion
has three as well: the ledger leaves the store, the cache remembers it, and the
cache drops its handles. Callers take turns between any two steps.

The memory is asked before the last step and not as part of it, so a deletion that
is remembered in between goes unnoticed: the look-up makes a handle of a ledger
that the cache remembers, and creates the ledger anew. Nothing else lets it do so.
Other caches of the same store take no turns here.
-/

namespace FencedLedger

/-- How far a look-up has come. -/
inductive Phase where
  | sought
  /-- No handle was cached. -/
  | missed
  /-- The memory had no objection, or was not asked. -/
  | admitted
  | ended
  deriving DecidableEq

/-- A look-up for writing on its way. -/
structure Lookup where
  ledger : LedgerId
  presented : Bytes
  replay : Bool
  phase : Phase
  /-- Of an admitted look-up, whether a deletion of the ledger was remembered since
  then. -/
  overtaken : Bool

/-- A host in the middle of look-ups and deletions. -/
structure Racing where
  host : Host
  lookups : List Lookup
  /-- The removed ledgers that the cache was not told of yet, and whether they were
  fenced. -/
  removals : List (LedgerId × Bool)
  /-- The ledgers whose handles the cache has yet to drop. -/
  evictions : List LedgerId

/-- Who acts next. Look-ups, removals and evictions are known by their places. -/
inductive Turn where
  | call (l : LedgerId) (presented : Bytes) (replay : Bool)
  | seek (i : Nat)
  | ask (i : Nat)
  | make (i : Nat)
  | fence (l : LedgerId)
  | remove (l : LedgerId)
  | remember (i : Nat)
  | evict (i : Nat)
  | pass (nanos : Nat)

namespace Racing

variable {c : Nat} {s s' : Racing} {turn : Turn}

/-- A host that nobody is busy with. -/
def idle (w : Host) : Racing := ⟨w, [], [], []⟩

/-- Take a look-up on from a phase. -/
def advance (s : Racing) (i : Nat) (phase : Phase) (f : Lookup → Lookup × Host) : Option Racing :=
  match s.lookups[i]? with
  | none => none
  | some x =>
      if x.phase = phase then some { s with lookups := s.lookups.set i (f x).1, host := (f x).2 }
      else none

/-- Note that a deletion of the ledger was remembered. -/
def overtake (l : LedgerId) (x : Lookup) : Lookup :=
  if x.ledger = l then { x with overtaken := true } else x

/-- The host behind the last step of a look-up. -/
def made (w : Host) (c : Nat) (x : Lookup) : Host :=
  match w.obtainHandle c x.ledger x.presented with
  | (.error _, w) => w
  | (.ok _, w) => w.showCached c .writable

/-- Let a ledger leave the store. -/
def remove (s : Racing) (l : LedgerId) : Option Racing :=
  match s.host.send .direct .remove (Store.remove s.host.isPresent l) with
  | (.error _, _) => none
  | (.ok (wasFenced, _), w) =>
      some { s with host := w, removals := s.removals ++ [(l, wasFenced)] }

/-- Let the cache remember a removed ledger, if it was fenced and a handle of it is
cached. -/
def remember (s : Racing) (c i : Nat) : Option Racing :=
  match s.removals[i]? with
  | none => none
  | some (l, wasFenced) =>
      let s := { s with removals := s.removals.eraseIdx i, evictions := s.evictions ++ [l] }
      if wasFenced && (s.host.cacheAt c).writable.contains l then
        some { s with
          host := s.host.rememberDeletion c l
          lookups := s.lookups.map (overtake l) }
      else some s

/-- Let the cache drop the handles of a removed ledger. -/
def evict (s : Racing) (c i : Nat) : Option Racing :=
  match s.evictions[i]? with
  | none => none
  | some l => some { s with host := s.host.dropHandles c l, evictions := s.evictions.eraseIdx i }

/-- What a turn comes to, if it can be taken. -/
def next (c : Nat) (s : Racing) : Turn → Option Racing
  | .call l presented replay =>
      some { s with lookups := s.lookups ++ [⟨l, presented, replay, .sought, false⟩] }
  | .seek i =>
      s.advance i .sought fun x =>
        if (s.host.cacheAt c).writable.contains x.ledger then ({ x with phase := .ended }, s.host)
        else ({ x with phase := .missed }, s.host)
  | .ask i =>
      s.advance i .missed fun x =>
        if !x.replay && (s.host.cacheAt c).recalls s.host.now x.ledger then
          ({ x with phase := .ended }, s.host)
        else ({ x with phase := .admitted, overtaken := false }, s.host)
  | .make i => s.advance i .admitted fun x => ({ x with phase := .ended }, made s.host c x)
  | .fence l => some { s with host := (s.host.request .direct (.fence l)).2 }
  | .remove l => s.remove l
  | .remember i => s.remember c i
  | .evict i => s.evict c i
  | .pass nanos => some { s with host := s.host.undergo (.pass nanos) }

/-- Take turns, as long as they can be taken. -/
def run (c : Nat) : Racing → List Turn → Option Racing
  | s, [] => some s
  | s, turn :: turns => (next c s turn).bind (run c · turns)

/-- What a host with a cache can come to. -/
inductive Reachable (c : Nat) : Racing → Prop where
  | idle {w : Host} (h : c < w.caches.next) : Reachable c (idle w)
  | next {s s' : Racing} {turn : Turn} (h : Reachable c s) (hnext : next c s turn = some s') :
      Reachable c s'

theorem Reachable.run {turns : List Turn} (h : Reachable c s) (hrun : run c s turns = some s') :
    Reachable c s' := by
  induction turns generalizing s with
  | nil =>
      cases hrun
      exact h
  | cons turn turns ih =>
      obtain ⟨s₁, hnext, hrest⟩ := Option.bind_eq_some_iff.mp hrun
      exact ih (h.next hnext) hrest

/-! ### Undisturbed turns -/

/-- A deletion that nobody interrupts is one that the cache is told of. -/
theorem deletion_alone {w w' : Host} {l : LedgerId} {wasFenced : Bool}
    {subscribers : List Subscriber}
    (h : w.send .direct .remove (Store.remove w.isPresent l) = (.ok (wasFenced, subscribers), w')) :
    run c (idle w) [.remove l, .remember 0, .evict 0] =
      some (idle (w'.tellCache c l wasFenced)) := by
  simp only [run, next, idle, remove, remember, evict, h, Option.bind_some, List.nil_append,
    List.getElem?_cons_zero, List.eraseIdx_cons_zero, List.map_nil]
  unfold Host.tellCache
  dsimp only
  split <;> rfl

/-- A look-up that nobody interrupts finds what a whole look-up finds. -/
theorem lookup_alone {w : Host} {l : LedgerId} {presented : Bytes} {replay : Bool}
    (huncached : (w.cacheAt c).writable.get? l = none)
    (hasked : (!replay && (w.cacheAt c).recalls w.now l) = false) :
    (run c (idle w) [.call l presented replay, .seek 0, .ask 0, .make 0]).map Racing.host =
      some (w.findHandle c l presented replay).2 := by
  have hnone : (w.cacheAt c).writable.contains l = false := by simp [Table.contains, huncached]
  simp only [run, next, idle, advance, List.nil_append, List.getElem?_cons_zero, Option.bind_some,
    List.set_cons_zero, hnone, hasked, if_true, Bool.false_eq_true, if_false, Option.map_some]
  unfold made Host.findHandle
  rw [huncached, hasked]
  dsimp only
  rw [if_neg Bool.false_ne_true]
  cases w.obtainHandle c l presented with
  | mk answer w' => cases answer <;> rfl

/-! ### The memory -/

/-- What is recalled now was recalled before, if nothing was remembered in between. -/
theorem recalls_of_later {m : DeletionMemory} {ttl now now' : Nat} {l : LedgerId}
    (hle : now ≤ now') (h : m.recalls ttl now' l = true) : m.recalls ttl now l = true := by
  unfold DeletionMemory.recalls at h ⊢
  split at h
  next => cases h
  next deleted hget =>
    simp only [decide_eq_true_eq] at h ⊢
    omega

/-- Remembering a deletion makes no other ledger remembered. -/
theorem recalls_of_remember {m : DeletionMemory} {ttl capacity now now' : Nat} {l l' : LedgerId}
    (hne : l' ≠ l) (h : (m.remember ttl capacity now l').2.recalls ttl now' l = true) :
    m.recalls ttl now' l = true := by
  have hroom : ∀ {deleted}, (m.makeRoom ttl capacity now).2.deletions.get? l = some deleted →
      m.deletions.get? l = some deleted := by
    intro deleted hget
    rw [Table.get?_eq_some_iff] at hget ⊢
    unfold DeletionMemory.makeRoom at hget
    dsimp only at hget
    have hpruned : ∀ d ∈ (if capacity ≤ m.size then m.prune ttl now else m).deletions.entries,
        d ∈ m.deletions.entries := by
      intro d hd
      split at hd
      next => exact List.mem_of_mem_filter hd
      next => exact hd
    generalize (if capacity ≤ m.size then m.prune ttl now else m) = pruned at hget hpruned
    split at hget
    next => exact hpruned _ (List.mem_of_mem_filter hget)
    next => exact hpruned _ hget
  unfold DeletionMemory.recalls at h ⊢
  unfold DeletionMemory.remember at h
  dsimp only at h
  rw [Table.get?_insert_ne _ _ hne] at h
  split at h
  next => cases h
  next deleted hget => rwa [hroom hget]

theorem not_recalls_of_absent {w : Host} {now : Nat} {l : LedgerId}
    (h : w.caches.get? c = none) : (w.cacheAt c).recalls now l = false := by
  simp [Host.cacheAt, h, default, Cache.create, Cache.recalls, DeletionMemory.recalls,
    DeletionMemory.empty]

/-- What a cache recalls afterwards it recalled before, if its memory is the same. -/
theorem recalls_of_keepsMemory {w w' : Host} {l : LedgerId} (hknown : c < w.caches.next)
    (h : w.KeepsMemory c w') (hrecalls : (w'.cacheAt c).recalls w'.now l = true) :
    (w.cacheAt c).recalls w.now l = true := by
  cases hy : w'.caches.get? c with
  | none =>
      rw [not_recalls_of_absent hy] at hrecalls
      cases hrecalls
  | some y =>
      obtain ⟨x, hx, hconfig, hmemory⟩ := (h.kept hy).resolve_left (Nat.not_le_of_lt hknown)
      have hat := Host.cacheAt_of_get? hx
      have hat' := Host.cacheAt_of_get? hy
      rw [hat', Cache.recalls, Cache.ttl, hconfig, hmemory] at hrecalls
      rw [hat]
      exact recalls_of_later h.now_le hrecalls

/-- A deletion of another ledger may make the cache forget one, and never makes it
recall one. -/
theorem recalls_of_rememberDeletion {w : Host} {l l' : LedgerId} (hne : l' ≠ l)
    (hrecalls : ((w.rememberDeletion c l').cacheAt c).recalls (w.rememberDeletion c l').now l =
      true) : (w.cacheAt c).recalls w.now l = true := by
  cases hx : w.caches.get? c with
  | none =>
      have hnone : (w.rememberDeletion c l').caches.get? c = none := by
        simp [Host.rememberDeletion_caches, Arena.get?_modify, hx]
      rw [not_recalls_of_absent hnone] at hrecalls
      cases hrecalls
  | some x =>
      have hat := Host.cacheAt_of_get? hx
      have hat' := Host.cacheAt_of_get? (Host.rememberDeletion_get? hx l')
      rw [hat', Host.rememberDeletion_now] at hrecalls
      rw [hat]
      exact recalls_of_remember hne (recalls_of_later (Nat.le_succ _) hrecalls)

/-! ### What turns can come to -/

/-- A look-up takes its turn only when it has come so far. -/
theorem advance_eq {i : Nat} {phase : Phase} {f : Lookup → Lookup × Host}
    (h : s.advance i phase f = some s') :
    ∃ x, s.lookups[i]? = some x ∧ x.phase = phase ∧
      s' = { s with lookups := s.lookups.set i (f x).1, host := (f x).2 } := by
  unfold advance at h
  split at h
  next => cases h
  next x hx =>
    split at h
    next hphase => exact ⟨x, hx, hphase, (Option.some.inj h).symm⟩
    next => cases h

/-- The removal is one step, and whom to tell is settled with it. -/
theorem remove_eq {l : LedgerId} (h : s.remove l = some s') :
    ∃ w removals, s' = { s with host := w, removals } ∧ s.host.StoreOnly w ∧
      s.host.store.Removes l w.store := by
  unfold remove at h
  split at h
  next => cases h
  next hsend =>
    obtain ⟨hact, honly⟩ := Host.send_ok hsend
    obtain ⟨hremoves, -⟩ := Store.remove_spec hact
    exact ⟨_, _, (Option.some.inj h).symm, honly, hremoves⟩

/-- Only a cache that was told of a fenced ledger, and holds a handle of it, remembers it. -/
theorem remember_cases {i : Nat} (h : s.remember c i = some s') :
    ∃ removals evictions, s' = { s with removals, evictions } ∨
      ∃ l, s' = ⟨s.host.rememberDeletion c l, s.lookups.map (overtake l), removals, evictions⟩ := by
  unfold remember at h
  split at h
  next => cases h
  next l wasFenced _ =>
    dsimp only at h
    split at h
    next => exact ⟨_, _, Or.inr ⟨l, (Option.some.inj h).symm⟩⟩
    next => exact ⟨_, _, Or.inl (Option.some.inj h).symm⟩

theorem evict_eq {i : Nat} (h : s.evict c i = some s') :
    ∃ l evictions, s.evictions[i]? = some l ∧
      s' = { s with host := s.host.dropHandles c l, evictions } := by
  unfold evict at h
  split at h
  next => cases h
  next l hl => exact ⟨l, _, hl, (Option.some.inj h).symm⟩

/-! ### The invariant -/

/-- The memory has no objection to a look-up that it admitted, unless a deletion
overtook the look-up. -/
structure Guarded (c : Nat) (s : Racing) : Prop where
  known : c < s.host.caches.next
  unobjected : ∀ x ∈ s.lookups, x.phase = .admitted → x.replay = false → x.overtaken = false →
    (s.host.cacheAt c).recalls s.host.now x.ledger = false

/-- What leaves the memory alone leaves the look-ups where they are. -/
theorem Guarded.keeps (h : Guarded c s) {w : Host} (hkeeps : s.host.KeepsMemory c w) :
    Guarded c { s with host := w } where
  known := Nat.lt_of_lt_of_le h.known hkeeps.next_le
  unobjected x hx hadmitted hreplay hnot := by
    refine Bool.eq_false_iff.mpr fun hrecalls => ?_
    have hbefore := recalls_of_keepsMemory h.known hkeeps hrecalls
    rw [h.unobjected x hx hadmitted hreplay hnot] at hbefore
    cases hbefore

/-- A look-up may take a step that does not admit it, or that the memory does not
object to. -/
theorem Guarded.advance (h : Guarded c s) {i : Nat} {phase : Phase}
    {f : Lookup → Lookup × Host} (hadvance : s.advance i phase f = some s')
    (hkeeps : ∀ x, s.host.KeepsMemory c (f x).2)
    (hadmits : ∀ x, (f x).1.phase = .admitted → (f x).1.replay = false →
      ((f x).2.cacheAt c).recalls (f x).2.now (f x).1.ledger = false) : Guarded c s' := by
  obtain ⟨x, -, -, rfl⟩ := advance_eq hadvance
  obtain ⟨hknown, hunobjected⟩ := h.keeps (hkeeps x)
  refine ⟨hknown, fun y hy hadmitted hreplay hnot => ?_⟩
  rcases List.mem_or_eq_of_mem_set hy with hy | rfl
  · exact hunobjected y hy hadmitted hreplay hnot
  · exact hadmits x hadmitted hreplay

/-- Making a handle remembers no deletion. -/
theorem made_keepsMemory (w : Host) (c : Nat) (x : Lookup) :
    w.KeepsMemory c (made w c x) := by
  have hopens := (w.obtainHandle_opens c x.ledger x.presented).keepsMemory (c := c)
  unfold made
  split
  next hfailed => rwa [hfailed] at hopens
  next w' hmade =>
    rw [hmade] at hopens
    have hshown := Host.showCached_idle w' c .writable
    exact hopens.trans (Host.keepsMemory_of_eq hshown.background.now_le hshown.caches)

/-- A deletion that is remembered overtakes the look-ups that have been let through. -/
theorem Guarded.remember (h : Guarded c s) (l : LedgerId) :
    Guarded c { s with
      host := s.host.rememberDeletion c l
      lookups := s.lookups.map (overtake l) } where
  known := by
    dsimp only
    rw [Host.rememberDeletion_caches, Arena.next_modify]
    exact h.known
  unobjected x hx hadmitted hreplay hnot := by
    obtain ⟨y, hy, rfl⟩ := List.mem_map.mp hx
    unfold overtake at hadmitted hreplay hnot ⊢
    split at hnot
    next => cases hnot
    next hother =>
      rw [if_neg hother] at hadmitted hreplay ⊢
      refine Bool.eq_false_iff.mpr fun hrecalls => ?_
      have hbefore := recalls_of_rememberDeletion (Ne.symm hother) hrecalls
      rw [h.unobjected y hy hadmitted hreplay hnot] at hbefore
      cases hbefore

/-- Each turn keeps what the look-ups on their way rely on. -/
theorem Guarded.next (h : Guarded c s) (hnext : next c s turn = some s') : Guarded c s' := by
  cases turn with
  | call l presented replay =>
      cases hnext
      refine ⟨h.known, fun x hx hadmitted => ?_⟩
      rcases List.mem_append.mp hx with hx | hx
      · exact h.unobjected x hx hadmitted
      · cases List.mem_singleton.mp hx
        cases hadmitted
  | seek i =>
      refine h.advance hnext (fun x => ?_) (fun x hadmitted => ?_)
      · split <;> exact Host.keepsMemory_of_eq (Nat.le_refl _) rfl
      · split at hadmitted <;> cases hadmitted
  | ask i =>
      refine h.advance hnext (fun x => ?_) (fun x hadmitted hreplay => ?_)
      · split <;> exact Host.keepsMemory_of_eq (Nat.le_refl _) rfl
      · split at hadmitted
        next => cases hadmitted
        -- it was admitted just now, so the cache did not recall the ledger
        next hasked =>
          rw [if_neg hasked] at hreplay ⊢
          dsimp only at hreplay
          simpa [hreplay] using hasked
  | make i =>
      exact h.advance hnext (made_keepsMemory s.host c) fun x hadmitted => by cases hadmitted
  | fence l =>
      cases hnext
      refine h.keeps ?_
      have heffect := s.host.perform_effect (.request .direct (.fence l))
      rw [Host.perform, Host.answer_host] at heffect
      exact heffect.keepsMemory rfl
  | remove l =>
      obtain ⟨w, removals, rfl, honly, -⟩ := remove_eq hnext
      have hkept := h.keeps (Host.keepsMemory_of_eq honly.background.now_le honly.caches)
      exact ⟨hkept.known, hkept.unobjected⟩
  | remember i =>
      obtain ⟨removals, evictions, rfl | ⟨l, rfl⟩⟩ := remember_cases hnext
      · exact ⟨h.known, h.unobjected⟩
      · have hremembered := h.remember l
        exact ⟨hremembered.known, hremembered.unobjected⟩
  | evict i =>
      obtain ⟨l, evictions, -, rfl⟩ := evict_eq hnext
      have hkept := h.keeps (s.host.dropHandles_keepsMemory c l)
      exact ⟨hkept.known, hkept.unobjected⟩
  | pass nanos =>
      cases hnext
      exact h.keeps (Host.keepsMemory_of_eq (Host.pass_idle _ nanos).background.now_le rfl)

theorem Reachable.guarded (h : Reachable c s) : Guarded c s := by
  induction h with
  | idle hknown => exact ⟨hknown, by simp [Racing.idle]⟩
  | next _ hnext ih => exact ih.next hnext

/-! ### What is made -/

/-- The host has a handle or a ledger that it did not have. -/
def Makes (s s' : Racing) : Prop :=
  s'.host.handles ≠ s.host.handles ∨
    ∃ l, s.host.store.ledgers.contains l = false ∧ s'.host.store.ledgers.contains l = true

/-- The handles are the same, and no ledger is there that was not. -/
structure MakesNone (w w' : Host) : Prop where
  handles : w'.handles = w.handles
  absent : ∀ {l}, w.store.keyOf? l = none → w'.store.keyOf? l = none

theorem makesNone_of_eq {w w' : Host} (hhandles : w'.handles = w.handles)
    (hstore : w'.store = w.store) : MakesNone w w' :=
  ⟨hhandles, fun habsent => hstore ▸ habsent⟩

theorem MakesNone.not_makes (h : MakesNone s.host s'.host) : ¬ Makes s s' := by
  rintro (hhandles | ⟨l, hbefore, hafter⟩)
  · exact hhandles h.handles
  · have habsent := h.absent (Store.contains_eq_false_iff.mp hbefore)
    cases hafter.symm.trans (Store.contains_eq_false_iff.mpr habsent)

/-- A turn makes nothing, unless it is the last one of a look-up. -/
theorem make_or_makesNone (hnext : next c s turn = some s') :
    (∃ i x, turn = .make i ∧ s.lookups[i]? = some x ∧ x.phase = .admitted) ∨
      MakesNone s.host s'.host := by
  cases turn with
  | call l presented replay =>
      cases hnext
      exact Or.inr (makesNone_of_eq rfl rfl)
  | seek i | ask i =>
      obtain ⟨x, -, -, rfl⟩ := advance_eq hnext
      dsimp only
      split <;> exact Or.inr (makesNone_of_eq rfl rfl)
  | make i =>
      obtain ⟨x, hx, hadmitted, -⟩ := advance_eq hnext
      exact Or.inl ⟨i, x, rfl, hx, hadmitted⟩
  | fence l =>
      cases hnext
      -- to fence a ledger binds no key, so no ledger is created
      rcases s.host.request_cases .direct (.fence l) with hsteady | ⟨_, _, hother, -⟩
      · exact Or.inr ⟨hsteady.handles, fun habsent => (hsteady.store.keys _).trans habsent⟩
      · cases hother
  | remove l =>
      obtain ⟨w, removals, rfl, honly, hremoves⟩ := remove_eq hnext
      refine Or.inr ⟨honly.handles, fun {l'} habsent => ?_⟩
      -- a removal only takes a ledger away
      rw [hremoves.keys]
      split
      next => rfl
      next => exact habsent
  | remember i =>
      obtain ⟨removals, evictions, rfl | ⟨l, rfl⟩⟩ := remember_cases hnext
      · exact Or.inr (makesNone_of_eq rfl rfl)
      · obtain ⟨memory, metrics, heq⟩ := s.host.rememberDeletion_eq c l
        exact Or.inr (makesNone_of_eq (congrArg Host.handles heq :) (congrArg Host.store heq :))
  | evict i =>
      obtain ⟨l, evictions, -, rfl⟩ := evict_eq hnext
      exact Or.inr (makesNone_of_eq rfl rfl)
  | pass nanos =>
      cases hnext
      exact Or.inr (makesNone_of_eq rfl rfl)

/-- A look-up makes a handle of a ledger that the cache remembers only in a replay,
or when the deletion was remembered after the look-up was admitted. -/
theorem recalled_only_if_overtaken (hreach : Reachable c s) (hnext : next c s turn = some s')
    (hmakes : Makes s s') :
    ∃ i x, turn = .make i ∧ s.lookups[i]? = some x ∧ x.phase = .admitted ∧
      (x.replay = false → (s.host.cacheAt c).recalls s.host.now x.ledger = true →
        x.overtaken = true) := by
  obtain ⟨i, x, hturn, hx, hadmitted⟩ :=
    (make_or_makesNone hnext).resolve_right fun hnone => hnone.not_makes hmakes
  refine ⟨i, x, hturn, hx, hadmitted, fun hreplay hrecalls => ?_⟩
  refine Bool.not_eq_false _ |>.mp fun hnot => ?_
  rw [hreach.guarded.unobjected x (List.mem_of_getElem? hx) hadmitted hreplay hnot] at hrecalls
  cases hrecalls

/-- A host with a cache. -/
def opening : Host := ((Host.start none).perform (.createCache .trial)).2

/-- Two look-ups of a ledger are admitted. The second makes a handle, and the ledger
is fenced and deleted. -/
def overtaking : List Turn :=
  [.call ⟨1⟩ [] false, .seek 0, .ask 0, .call ⟨1⟩ [] false, .seek 1, .ask 1, .make 1,
    .fence ⟨1⟩, .remove ⟨1⟩, .remember 0, .evict 0]

theorem reachable_opening : Reachable 0 (idle opening) := .idle (by decide)

/-- The first look-up goes on, and was overtaken. -/
theorem overtaken_by_deletion :
    ∃ s s' x, next 0 s (.make 0) = some s' ∧ Makes s s' ∧ s.lookups[0]? = some x ∧
      x.overtaken = true := by
  obtain ⟨s, hs⟩ : ∃ s, run 0 (idle opening) overtaking = some s := ⟨_, rfl⟩
  obtain ⟨s', hs'⟩ : ∃ s', next 0 s (.make 0) = some s' := by
    cases hs
    exact ⟨_, rfl⟩
  have hmakes : Makes s s' := by
    cases hs
    cases hs'
    exact Or.inr ⟨⟨1⟩, by decide, by decide⟩
  obtain ⟨i, x, hturn, hx, -, hovertaken⟩ :=
    recalled_only_if_overtaken (reachable_opening.run hs) hs' hmakes
  cases hturn
  refine ⟨s, s', x, hs', hmakes, hx, ?_⟩
  cases hs
  cases hx
  exact hovertaken (by decide) (by decide)

/-- It creates the ledger anew, although the cache remembers it. -/
theorem created_while_recalled :
    ∃ s s', Reachable 0 s ∧ next 0 s (.make 0) = some s' ∧
      (∀ x ∈ s.lookups, x.replay = false) ∧
      (s.host.cacheAt 0).recalls s.host.now ⟨1⟩ = true ∧
      s.host.store.ledgers.contains ⟨1⟩ = false ∧ s'.host.store.ledgers.contains ⟨1⟩ = true :=
  ⟨_, _, reachable_opening.run (show run 0 _ overtaking = some _ from rfl), rfl,
    by decide, by decide, by decide, by decide⟩

end Racing

end FencedLedger
