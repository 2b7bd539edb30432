import FencedLedger.Proofs.RecentDeletions
import FencedLedger.Proofs.Timelines

/-!
# What a cache remembers of a timeline

A cache remembers a deletion when it is told that a fenced ledger is gone and has
handed out a writable handle of it. The history of a cache are these deletions,
in the order in which it was told. Nothing else changes the memory, so what a
cache recalls follows from its history: while nothing expires, the ledgers that
were deleted last. Two caches may well have different histories.
-/

namespace FencedLedger

namespace Host

variable {w w' w'' : Host} {c : Nat}

/-! ### Histories -/

/-- What a cache remembers when it is told of a deletion. -/
def noted (w : Host) (c : Nat) (l : LedgerId) (wasFenced : Bool) : List Deletion :=
  if wasFenced && (w.cacheAt c).writable.contains l then [(l, w.now)] else []

/-- What it remembers while subscribers are told, one after the other. -/
def notedTelling (c : Nat) (l : LedgerId) (wasFenced : Bool) :
    Host → List Subscriber → List Deletion
  | _, [] => []
  | w, who :: subscribers =>
      (if who = .cache c then w.noted c l wasFenced else []) ++
        notedTelling c l wasFenced (tellSubscriber l wasFenced w who) subscribers

/-- What it remembers when a ledger is deleted. -/
def notedRemoving (w : Host) (c : Nat) (access : Access) (l : LedgerId) : List Deletion :=
  match w.send access .remove (Store.remove w.isPresent l) with
  | (.error _, _) => []
  | (.ok (wasFenced, subscribers), w) => notedTelling c l wasFenced w subscribers

/-- What it remembers during a moment. -/
def notedDuring (w : Host) (c : Nat) : Moment → List Deletion
  | .act (.tellCache c' l wasFenced) => if c' = c then w.noted c l wasFenced else []
  | .act (.remove access l) => w.notedRemoving c access l
  | _ => []

/-- The deletions that a cache remembers on a timeline, the first in front. -/
def notedOver (c : Nat) : Host → List Moment → List Deletion
  | _, [] => []
  | w, moment :: moments => w.notedDuring c moment ++ notedOver c (w.undergo moment) moments

theorem noted_of_not_held {l : LedgerId} {wasFenced : Bool} (h : w.caches.holds c = false) :
    w.noted c l wasFenced = [] := by
  have hnone : w.caches.get? c = none := by
    simpa [Arena.holds] using h
  simp [noted, cacheAt, hnone, Table.contains, default, Cache.create]

theorem notedDuring_of_not_tells {op : Op} (hop : op.tellsDeletion = false) :
    w.notedDuring c (.act op) = [] := by
  cases op with
  | remove | tellCache => cases hop
  | _ => rfl

/-! ### Steps that keep a memory -/

/-- The settings and the memory of a cache are as they were, unless it is new. -/
structure KeepsMemory (c : Nat) (w w' : Host) : Prop where
  now_le : w.now ≤ w'.now
  next_le : w.caches.next ≤ w'.caches.next
  kept : ∀ {y}, w'.caches.get? c = some y → w.caches.next ≤ c ∨
    ∃ x, w.caches.get? c = some x ∧ y.config = x.config ∧ y.memory = x.memory

theorem KeepsMemory.trans (h : KeepsMemory c w w') (h' : KeepsMemory c w' w'') :
    KeepsMemory c w w'' where
  now_le := Nat.le_trans h.now_le h'.now_le
  next_le := Nat.le_trans h.next_le h'.next_le
  kept hz := by
    rcases h'.kept hz with hnew | ⟨y, hy, hconfig, hmemory⟩
    · exact Or.inl (Nat.le_trans h.next_le hnew)
    · rcases h.kept hy with hnew | ⟨x, hx, hconfig', hmemory'⟩
      · exact Or.inl hnew
      · exact Or.inr ⟨x, hx, hconfig.trans hconfig', hmemory.trans hmemory'⟩

theorem keepsMemory_of_eq (hnow : w.now ≤ w'.now) (hcaches : w'.caches = w.caches) :
    KeepsMemory c w w' where
  now_le := hnow
  next_le := Nat.le_of_eq (congrArg Arena.next hcaches).symm
  kept {y} hy := Or.inr ⟨y, hcaches ▸ hy, rfl, rfl⟩

/-- A change to some cache that leaves settings and memory alone. -/
theorem keepsMemory_of_modify {c' : Nat} {f : Cache → Cache} (hnow : w.now ≤ w'.now)
    (hcaches : w'.caches = w.caches.modify c' f)
    (hf : ∀ x, (f x).config = x.config ∧ (f x).memory = x.memory) : KeepsMemory c w w' where
  now_le := hnow
  next_le := Nat.le_of_eq (by rw [hcaches, Arena.next_modify])
  kept {y} hy := by
    rw [hcaches, Arena.get?_modify] at hy
    split at hy
    next =>
      obtain ⟨x, hx, rfl⟩ := Option.map_eq_some_iff.mp hy
      exact Or.inr ⟨x, hx, hf x⟩
    next => exact Or.inr ⟨y, hy, rfl, rfl⟩

theorem Opens.keepsMemory {c' : Nat} {l : LedgerId} {presented : Bytes}
    (h : Opens c' l presented w w') : KeepsMemory c w w' := by
  cases h with
  | idle h => exact keepsMemory_of_eq h.background.now_le h.caches
  | makes h _ hcaches => exact keepsMemory_of_modify h.background.now_le hcaches fun _ => ⟨rfl, rfl⟩

theorem OpensReader.keepsMemory {c' : Nat} {l : LedgerId} (h : OpensReader c' l w w') :
    KeepsMemory c w w' := by
  cases h with
  | idle h => exact keepsMemory_of_eq h.background.now_le h.caches
  | makes _ only _ =>
      exact keepsMemory_of_modify only.background.now_le only.caches fun _ => ⟨rfl, rfl⟩

/-- An operation that tells no cache of a deletion keeps all memories. -/
theorem Effect.keepsMemory {op : Op} {removed : Option LedgerId} (h : Effect op w w' removed)
    (hop : op.tellsDeletion = false) : KeepsMemory c w w' := by
  cases h with
  | idle h => exact keepsMemory_of_eq h.background.now_le h.caches
  | steady _ h => exact keepsMemory_of_eq h.onward.now_le h.caches
  | fences _ h => exact keepsMemory_of_eq h.background.now_le h.caches
  | creates only _ => exact keepsMemory_of_eq only.background.now_le only.caches
  | makesHandle h hcaches => exact keepsMemory_of_eq h.background.now_le hcaches
  | makesReader only _ =>
      exact keepsMemory_of_eq only.background.now_le only.caches
  | opens h => exact h.keepsMemory
  | opensReader h => exact h.keepsMemory
  | drops hdrops _ =>
      rw [hdrops] at hop
      cases hop
  | members h =>
      refine ⟨h.background.now_le, h.next_le, fun {y} hy => ?_⟩
      rcases h.caches hy with hy | ⟨hnew, -⟩
      · exact Or.inr ⟨y, hy, rfl, rfl⟩
      · exact Or.inl hnew
  | removes hremoves _ _ _ _ =>
      rw [hremoves] at hop
      cases hop

theorem dropHandles_keepsMemory (w : Host) (c' : Nat) (l : LedgerId) :
    KeepsMemory c w (w.dropHandles c' l) :=
  keepsMemory_of_modify (dropHandles_drops w c' l).background.now_le rfl fun _ => ⟨rfl, rfl⟩

/-! ### Steps that remember -/

theorem rememberDeletion_caches (w : Host) (c : Nat) (l : LedgerId) :
    (w.rememberDeletion c l).caches =
      w.caches.modify c fun _ => ((w.cacheAt c).remember w.now l).2 := by
  unfold rememberDeletion
  dsimp only
  split <;> rfl

theorem rememberDeletion_get? {x : Cache} (hx : w.caches.get? c = some x) (l : LedgerId) :
    (w.rememberDeletion c l).caches.get? c = some (x.remember w.now l).2 := by
  rw [rememberDeletion_caches, Arena.get?_modify, if_pos rfl, hx, cacheAt_of_get? hx,
    Option.map_some]

theorem rememberDeletion_now (w : Host) (c : Nat) (l : LedgerId) :
    (w.rememberDeletion c l).now = w.now + 1 := by
  unfold rememberDeletion
  dsimp only
  split <;> rfl

/-- Telling another cache of a deletion keeps the memory. -/
theorem tellCache_keepsMemory {c' : Nat} (hother : c' ≠ c) (w : Host) (l : LedgerId)
    (wasFenced : Bool) : KeepsMemory c w (w.tellCache c' l wasFenced) := by
  have hremember : KeepsMemory c w (w.rememberDeletion c' l) := by
    refine ⟨?_, ?_, fun {y} hy => Or.inr ⟨y, ?_, rfl, rfl⟩⟩
    · rw [rememberDeletion_now]
      exact Nat.le_succ _
    · exact Nat.le_of_eq (by rw [rememberDeletion_caches, Arena.next_modify])
    · rwa [rememberDeletion_caches, Arena.get?_modify, if_neg hother] at hy
  unfold tellCache
  dsimp only
  split
  next => exact hremember.trans (dropHandles_keepsMemory _ c' l)
  next => exact dropHandles_keepsMemory w c' l

/-- What a cache holds follows from the deletions that it was told of. -/
structure Recollects (c : Nat) (config : Config) (history : List Deletion) (w : Host) : Prop where
  known : c < w.caches.next
  ascending : history.Pairwise (·.2 < ·.2)
  past : ∀ d ∈ history, d.2 < w.now
  settings : ∀ {x}, w.caches.get? c = some x → x.config = config
  bounded : ∀ {x}, w.caches.get? c = some x → x.memory.size ≤ config.capacity
  window : ∀ {x}, w.caches.get? c = some x →
    (∀ d ∈ history, w.now - d.2 < config.ttl.totalNanos) →
    x.memory.deletions.entries.Perm (Deletion.window config.capacity history)

variable {config : Config} {history : List Deletion}

/-- What does not touch the memory of a cache leaves it agreeing with its history. -/
theorem Recollects.keeps (h : Recollects c config history w) (hkeeps : KeepsMemory c w w') :
    Recollects c config history w' := by
  have hkept : ∀ {y}, w'.caches.get? c = some y →
      ∃ x, w.caches.get? c = some x ∧ y.config = x.config ∧ y.memory = x.memory := fun hy =>
    (hkeeps.kept hy).resolve_left (Nat.not_le_of_lt h.known)
  refine ⟨Nat.lt_of_lt_of_le h.known hkeeps.next_le, h.ascending,
    fun d hd => Nat.lt_of_lt_of_le (h.past d hd) hkeeps.now_le, fun hy => ?_, fun hy => ?_,
    fun hy hlive => ?_⟩
  · obtain ⟨x, hx, hconfig, -⟩ := hkept hy
    exact hconfig.trans (h.settings hx)
  · obtain ⟨x, hx, -, hmemory⟩ := hkept hy
    exact hmemory ▸ h.bounded hx
  · obtain ⟨x, hx, -, hmemory⟩ := hkept hy
    refine hmemory ▸ h.window hx fun d hd => ?_
    exact Nat.lt_of_le_of_lt (Nat.sub_le_sub_right hkeeps.now_le _) (hlive d hd)

/-- A deletion that is remembered becomes the last one of the history. -/
theorem Recollects.remembers (h : Recollects c config history w) (hroom : 1 ≤ config.capacity)
    (l : LedgerId) :
    Recollects c config (history ++ [(l, w.now)]) (w.rememberDeletion c l) := by
  have hgot : ∀ {y}, (w.rememberDeletion c l).caches.get? c = some y →
      ∃ x, w.caches.get? c = some x ∧ y.config = x.config ∧
        y.memory = (x.memory.remember x.ttl x.config.capacity w.now l).2 := by
    intro y hy
    rw [rememberDeletion_caches, Arena.get?_modify, if_pos rfl] at hy
    obtain ⟨x, hx, rfl⟩ := Option.map_eq_some_iff.mp hy
    have hat := cacheAt_of_get? hx
    exact ⟨x, hx, hat ▸ rfl, hat ▸ rfl⟩
  constructor
  case known =>
    rw [rememberDeletion_caches, Arena.next_modify]
    exact h.known
  case ascending =>
    refine List.pairwise_append.mpr ⟨h.ascending, List.pairwise_singleton _ _, ?_⟩
    simpa using h.past
  case past =>
    intro d hd
    rw [rememberDeletion_now]
    rcases List.mem_append.mp hd with hd | hd
    · exact Nat.lt_succ_of_lt (h.past d hd)
    · rw [List.mem_singleton.mp hd]
      exact Nat.lt_succ_self _
  case settings =>
    intro y hy
    obtain ⟨x, hx, hconfig, -⟩ := hgot hy
    exact hconfig.trans (h.settings hx)
  case bounded =>
    intro y hy
    obtain ⟨x, hx, -, hmemory⟩ := hgot hy
    rw [hmemory, h.settings hx]
    exact x.memory.size_remember_le _ _ hroom l
  case window =>
    intro y hy hlive
    obtain ⟨x, hx, -, hmemory⟩ := hgot hy
    -- time went on, so what is live afterwards was live before
    have hlive' : ∀ d ∈ history, w.now - d.2 < config.ttl.totalNanos := by
      intro d hd
      have hlater := hlive d (List.mem_append_left _ hd)
      rw [rememberDeletion_now] at hlater
      exact Nat.lt_of_le_of_lt (Nat.sub_le_sub_right (Nat.le_succ _) _) hlater
    rw [hmemory, Deletion.window_concat, Cache.ttl, h.settings hx]
    refine DeletionMemory.remember_perm (h.window hx hlive') ?_ ?_ ?_ l
    · exact (Deletion.latestFirst_descending h.ascending).sublist
        (Deletion.window_initial _ _).sublist
    · exact fun d hd => hlive' d (Deletion.mem_of_mem_window hd)
    · exact Deletion.length_window_le hroom _

/-- A cache remembers what it is told if the ledger was fenced and it holds a handle of it. -/
theorem Recollects.tellCache (h : Recollects c config history w) (hroom : 1 ≤ config.capacity)
    (l : LedgerId) (wasFenced : Bool) :
    Recollects c config (history ++ w.noted c l wasFenced) (w.tellCache c l wasFenced) := by
  unfold Host.tellCache noted
  dsimp only
  split
  next => exact (h.remembers hroom l).keeps (dropHandles_keepsMemory _ c l)
  next =>
    rw [List.append_nil]
    exact h.keeps (dropHandles_keepsMemory w c l)

/-- An observer may look ledgers up, and look-ups remember nothing. -/
theorem tellObserver_keepsMemory (w : Host) (observer : Observer) (l : LedgerId)
    (wasFenced : Bool) : KeepsMemory c w (w.tellObserver observer l wasFenced) := by
  unfold tellObserver
  dsimp only
  split
  next => exact keepsMemory_of_eq (Nat.le_refl _) rfl
  next r _ =>
    exact (openWritable_opens w r.cache l r.key r.replay).keepsMemory.trans
      (keepsMemory_of_eq (Nat.le_refl _) rfl)

/-- Each subscriber that is told adds to the history of its own cache only. -/
theorem Recollects.tellSubscriber (h : Recollects c config history w)
    (hroom : 1 ≤ config.capacity) (l : LedgerId) (wasFenced : Bool) (who : Subscriber) :
    Recollects c config (history ++ if who = .cache c then w.noted c l wasFenced else [])
      (tellSubscriber l wasFenced w who) := by
  cases who with
  | cache c' =>
      by_cases hsame : c' = c
      · subst hsame
        rw [if_pos rfl]
        exact h.tellCache hroom l wasFenced
      · rw [if_neg (by simpa using hsame), List.append_nil]
        exact h.keeps (tellCache_keepsMemory hsame w l wasFenced)
  | observer o =>
      rw [if_neg (by simp), List.append_nil]
      unfold Host.tellSubscriber
      dsimp only
      split
      next => exact h
      next observer _ => exact h.keeps (tellObserver_keepsMemory w observer l wasFenced)

/-- Each subscriber that is told may have its cache remember the deletion. -/
theorem Recollects.telling (h : Recollects c config history w) (hroom : 1 ≤ config.capacity)
    (l : LedgerId) (wasFenced : Bool) (subscribers : List Subscriber) :
    Recollects c config (history ++ notedTelling c l wasFenced w subscribers)
      (subscribers.foldl (Host.tellSubscriber l wasFenced) w) := by
  induction subscribers generalizing w history with
  | nil =>
      rw [notedTelling, List.append_nil]
      exact h
  | cons who subscribers ih =>
      rw [notedTelling, ← List.append_assoc]
      exact ih (h.tellSubscriber hroom l wasFenced who)

/-- A deletion adds what the cache was told of, once for each time that it was told. -/
theorem Recollects.removing (h : Recollects c config history w) (hroom : 1 ≤ config.capacity)
    (access : Access) (l : LedgerId) :
    Recollects c config (history ++ w.notedRemoving c access l) (w.remove access l).2 := by
  unfold notedRemoving remove
  cases hsend : w.send access .remove (Store.remove w.isPresent l) with
  | mk answer w₁ =>
      cases answer with
      | error e =>
          have hidle := send_error hsend
          dsimp only
          rw [List.append_nil]
          exact h.keeps (keepsMemory_of_eq hidle.background.now_le hidle.caches)
      | ok told =>
          obtain ⟨-, honly⟩ := send_ok hsend
          have hsent := h.keeps (keepsMemory_of_eq honly.background.now_le honly.caches)
          exact hsent.telling hroom l told.1 told.2

/-- What happens at one moment of a timeline adds to the history what the cache noted then. -/
theorem Recollects.undergo (h : Recollects c config history w) (hroom : 1 ≤ config.capacity)
    (moment : Moment) :
    Recollects c config (history ++ w.notedDuring c moment) (w.undergo moment) := by
  cases moment with
  | pass nanos =>
      have hpassed := (pass_idle w nanos).background.now_le
      simpa [notedDuring] using h.keeps (keepsMemory_of_eq hpassed rfl)
  | act op =>
      cases hop : op.tellsDeletion with
      | false =>
          rw [notedDuring_of_not_tells hop, List.append_nil]
          exact h.keeps ((perform_effect w op).keepsMemory hop)
      | true =>
          cases op with
          | tellCache c' l wasFenced =>
              have htold := h.tellSubscriber hroom l wasFenced (.cache c')
              simp only [Subscriber.cache.injEq] at htold
              change Recollects c config (history ++ if c' = c then w.noted c l wasFenced else [])
                (w.whenHeld (w.caches.holds c') _).2
              unfold whenHeld
              by_cases hheld : w.caches.holds c' = true
              · rw [if_pos hheld]
                exact htold
              · -- a cache that is not held remembers nothing, so the history is as it was
                have hnone : (if c' = c then w.noted c l wasFenced else []) = [] := by
                  split
                  next hsame => exact noted_of_not_held (hsame ▸ Bool.eq_false_iff.mpr hheld)
                  next => rfl
                rw [if_neg hheld, hnone, List.append_nil]
                exact h
          | remove access l =>
              change Recollects c config (history ++ w.notedRemoving c access l)
                (answer .store _ (w.remove access l)).2
              rw [answer_host]
              exact h.removing hroom access l
          | _ => cases hop

/-- What a cache notes over a timeline is its history. -/
theorem Recollects.live (h : Recollects c config history w) (hroom : 1 ≤ config.capacity)
    (moments : List Moment) :
    Recollects c config (history ++ notedOver c w moments) (w.live moments) := by
  induction moments generalizing w history with
  | nil =>
      rw [notedOver, List.append_nil]
      exact h
  | cons moment moments ih =>
      rw [notedOver, ← List.append_assoc]
      exact ih (h.undergo hroom moment)

/-- A cache that was just created has an empty history. -/
theorem recollects_of_new (hnew : w.caches.get? c = some (.create config)) :
    Recollects c config [] w where
  known := by
    refine Nat.lt_of_not_le fun hle => ?_
    rw [Arena.get?_of_next_le _ hle] at hnew
    cases hnew
  ascending := .nil
  past := by simp
  settings hx := by
    cases hnew.symm.trans hx
    rfl
  bounded hx := by
    cases hnew.symm.trans hx
    exact Nat.zero_le _
  window hx _ := by
    cases hnew.symm.trans hx
    exact .refl _

/-! ### What is recalled -/

/-- A cache recalls the ledgers of a history that were deleted last, as many as
it has in memory. -/
structure RecallsLatest (capacity : Nat) (history : List Deletion) (x : Cache) (now : Nat) :
    Prop where
  recalls : ∀ l, x.recalls now l = true ↔
    l ∈ (Deletion.latestLedgers history).take x.memory.size
  least : min (Deletion.latestLedgers history).length
    (max 1 (capacity - Deletion.surrender capacity)) ≤ x.memory.size
  most : x.memory.size ≤ min (Deletion.latestLedgers history).length capacity
  retained : ∀ {earlier d later}, history = earlier ++ d :: later →
    later.length ≤ capacity - Deletion.surrender capacity → x.recalls now d.1 = true

/-- As long as nothing is old enough to expire, the latest deletions are recalled. -/
theorem Recollects.recallsLatest (h : Recollects c config history w) {x : Cache}
    (hroom : 1 ≤ config.capacity) (hx : w.caches.get? c = some x)
    (hlive : ∀ d ∈ history, w.now - d.2 < config.ttl.totalNanos) :
    RecallsLatest config.capacity history x w.now := by
  have hwindow := h.window hx hlive
  have hsize : x.memory.size = (Deletion.window config.capacity history).length :=
    hwindow.length_eq
  have hrecalls : ∀ l, x.recalls w.now l = true ↔
      l ∈ (Deletion.window config.capacity history).map Prod.fst := by
    intro l
    rw [← (hwindow.map Prod.fst).mem_iff, Cache.recalls, Cache.ttl, h.settings hx]
    -- nothing has expired, so to be in memory is to be recalled
    refine DeletionMemory.recalls_iff_of_live fun d hd => ?_
    exact hlive d (Deletion.mem_of_mem_window (hwindow.mem_iff.mp hd))
  constructor
  case recalls =>
    intro l
    rw [hrecalls, hsize, Deletion.window_eq_take, List.map_take, Deletion.map_latestFirst,
      ← Deletion.window_eq_take]
  case least =>
    rw [hsize, ← Deletion.length_latestFirst]
    exact Deletion.le_length_window _ _
  case most =>
    rw [hsize, ← Deletion.length_latestFirst]
    exact Nat.le_min.mpr ⟨(Deletion.window_initial _ _).length_le,
      Deletion.length_window_le hroom _⟩
  case retained =>
    intro earlier d later hsplit hlater
    rw [hrecalls, hsplit]
    have hmem := Deletion.mem_window_of_recent earlier later d hlater
    exact ((List.take_prefix _ _).map _).subset hmem

/-- Whatever happens to a host, a cache of it recalls the latest of the deletions
that it remembered, as long as none of these has expired. It holds no more than
its capacity at all times, and recalls nothing if it is given no time to live. -/
theorem recalls_latest_deletions (hnew : w.caches.get? c = some (.create config))
    (hroom : 1 ≤ config.capacity) (moments : List Moment) {x : Cache}
    (hx : (w.live moments).caches.get? c = some x) :
    x.memory.size ≤ config.capacity ∧
      (config.ttl.totalNanos = 0 → ∀ l, x.recalls (w.live moments).now l = false) ∧
      (notedOver c w moments).Pairwise (·.2 < ·.2) ∧
      ((∀ d ∈ notedOver c w moments, (w.live moments).now - d.2 < config.ttl.totalNanos) →
        RecallsLatest config.capacity (notedOver c w moments) x (w.live moments).now) := by
  have hrecollects := (recollects_of_new hnew).live hroom moments
  rw [List.nil_append] at hrecollects
  refine ⟨hrecollects.bounded hx, fun hzero l => ?_, hrecollects.ascending,
    hrecollects.recallsLatest hroom hx⟩
  rw [Cache.recalls, Cache.ttl, hrecollects.settings hx, hzero]
  exact DeletionMemory.recalls_zero _ _ l

/-- A host whose cache remembers one deletion at most. -/
def forgetful : Host :=
  ((start none).perform (.createCache ⟨Config.leastTtl, 1, false⟩)).2

/-- Two ledgers are opened, fenced and deleted, one after the other, and then the
first of them once more. -/
def deletingAgain : List Moment :=
  [⟨1⟩, ⟨2⟩, ⟨1⟩].flatMap fun l => [.act (.openWritable 0 l [] true),
    .act (.request .planned (.fence l)), .act (.remove .planned l)]

/-- The ledger that was deleted again is recalled, and the other one is not. -/
theorem recalled_after_second_deletion :
    ∃ x, (forgetful.live deletingAgain).caches.get? 0 = some x ∧
      x.recalls (forgetful.live deletingAgain).now ⟨1⟩ = true ∧
      x.recalls (forgetful.live deletingAgain).now ⟨2⟩ = false := by
  have hheld : (forgetful.live deletingAgain).caches.holds 0 = true := by decide +kernel
  have hsize : ((forgetful.live deletingAgain).cacheAt 0).memory.size = 1 := by decide +kernel
  have hnow : (forgetful.live deletingAgain).now = 3 := by decide +kernel
  have hhistory : notedOver 0 forgetful deletingAgain =
      [(⟨1⟩, 0), (⟨2⟩, 1), (⟨1⟩, 2)] := by decide +kernel
  obtain ⟨x, hx⟩ := Option.isSome_iff_exists.mp hheld
  have hat : (forgetful.live deletingAgain).cacheAt 0 = x := by simp [cacheAt, hx]
  obtain ⟨-, -, -, hlatest⟩ := recalls_latest_deletions rfl (by decide) deletingAgain hx
  rw [hhistory, hnow] at hlatest
  have hrecalls := (hlatest (by decide)).recalls
  rw [← hat, hsize] at hrecalls
  rw [hnow]
  refine ⟨x, hx, ?_, ?_⟩
  · rw [← hat, hrecalls]
    decide
  · rw [← hat, ← Bool.not_eq_true, hrecalls]
    decide

end Host

end FencedLedger
