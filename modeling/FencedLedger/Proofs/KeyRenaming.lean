import FencedLedger.Host.Op
import FencedLedger.Proofs.StoreViews

/-!
# Renaming master keys

A host with other keys is the host with every key renamed: the ones of its ledgers, of
its handles and of the look-ups that its observers make. Whatever is done to it, with
renamed keys presented, comes to the same, provided that different keys have different
names. Only a request for a key answers another one. Texts show the length of a key
at most, so they agree where a name is as long as what it names.
-/

namespace FencedLedger

/-! ### Tables and arenas -/

namespace Table

variable {κ α β : Type} {g : α → β}

/-- The table with every value replaced by its image. -/
def mapValues (g : α → β) (t : Table κ α) : Table κ β :=
  ⟨t.entries.map fun b => (b.1, g b.2), by rw [List.map_map]; exact t.distinct⟩

@[simp] theorem size_mapValues (t : Table κ α) : (t.mapValues g).size = t.size := List.length_map _

@[simp] theorem mapValues_empty : (empty : Table κ α).mapValues g = empty := rfl

variable [DecidableEq κ]

/-- A value is found under its key, mapped. -/
@[simp] theorem get?_mapValues (t : Table κ α) (k : κ) :
    (t.mapValues g).get? k = (t.get? k).map g := by
  change lookup k (t.entries.map _) = (lookup k t.entries).map g
  induction t.entries with
  | nil => rfl
  | cons b rest ih =>
      simp only [List.map_cons, lookup]
      split
      next => rfl
      next => exact ih

@[simp] theorem contains_mapValues (t : Table κ α) (k : κ) :
    (t.mapValues g).contains k = t.contains k := by
  simp [contains]

/-- Values may be mapped before or after one is put in. -/
theorem mapValues_insert (t : Table κ α) (k : κ) (v : α) :
    (t.insert k v).mapValues g = (t.mapValues g).insert k (g v) := by
  apply ext
  change (assign k v t.entries).map _ = assign k (g v) (t.entries.map _)
  induction t.entries with
  | nil => rfl
  | cons b rest ih =>
      simp only [List.map_cons, assign]
      split
      next => rfl
      next => exact congrArg (_ :: ·) ih

theorem mapValues_erase (t : Table κ α) (k : κ) :
    (t.erase k).mapValues g = (t.mapValues g).erase k :=
  ext (List.filter_map (f := fun b : κ × α => (b.1, g b.2)) (p := fun b => decide (b.1 ≠ k))).symm

end Table

namespace Arena

variable {α β : Type} {g : α → β}

/-- The arena with every object replaced by its image. -/
def map (g : α → β) (a : Arena α) : Arena β := ⟨a.slots.map (Option.map g)⟩

@[simp] theorem map_empty : (empty : Arena α).map g = empty :=
  ext Array.map_empty

@[simp] theorem next_map (a : Arena α) : (a.map g).next = a.next := Array.size_map

@[simp] theorem get?_map (a : Arena α) (i : Nat) : (a.map g).get? i = (a.get? i).map g := by
  change (a.slots.map _)[i]?.join = a.slots[i]?.join.map g
  rw [Array.getElem?_map]
  cases a.slots[i]? <;> rfl

@[simp] theorem holds_map (a : Arena α) (i : Nat) : (a.map g).holds i = a.holds i := by
  simp [holds]

theorem map_add (a : Arena α) (x : α) : (a.add x).map g = (a.map g).add (g x) :=
  ext Array.map_push

theorem map_modify_slots {u : Option α → Option α} {v : Option β → Option β}
    (hu : ∀ x, (u x).map g = v (x.map g)) (slots : Array (Option α)) (i : Nat) :
    (slots.modify i u).map (Option.map g) = (slots.map (Option.map g)).modify i v := by
  apply Array.ext_getElem?
  intro j
  rw [Array.getElem?_map, Array.getElem?_modify, Array.getElem?_modify, Array.getElem?_map]
  split
  next => cases slots[j]? <;> simp [hu]
  next => rfl

theorem map_modify {u : α → α} {v : β → β} (hu : ∀ x, g (u x) = v (g x)) (a : Arena α)
    (i : Nat) : (a.modify i u).map g = (a.map g).modify i v := by
  refine ext (map_modify_slots (fun x => ?_) a.slots i)
  cases x with
  | none => rfl
  | some x => exact congrArg some (hu x)

theorem map_release (a : Arena α) (i : Nat) : (a.release i).map g = (a.map g).release i := by
  apply ext
  unfold release map
  dsimp only
  rw [map_modify_slots (v := fun _ => none)]
  exact fun _ => rfl

end Arena

/-! ### Keys -/

/-- A renaming under which keys stay apart. The empty key, which stands in for the key of a
handle that is not there, stays empty. -/
structure KeyRenaming (f : Bytes → Bytes) : Prop where
  injective : Function.Injective f
  nil : f [] = []

variable {f : Bytes → Bytes}

/-- The key with its name in place of its bytes. -/
def MasterKey.rename (f : Bytes → Bytes) (key : MasterKey) : MasterKey := ⟨f key.bytes⟩

/-- Names keep keys apart, so a key is accepted under its name just if it was before. -/
theorem KeyRenaming.accepts (hf : KeyRenaming f) (key : MasterKey) (presented : Bytes) :
    (key.rename f).accepts (f presented) = key.accepts presented := by
  rw [Bool.eq_iff_iff, MasterKey.accepts_iff, MasterKey.accepts_iff]
  unfold MasterKey.rename
  constructor
  · intro h
    exact congrArg MasterKey.mk (hf.injective (MasterKey.mk.inj h))
  · rintro rfl
    rfl

def Ledger.rename (f : Bytes → Bytes) (l : Ledger) : Ledger := { l with key := l.key.rename f }

namespace Handle

def rename (f : Bytes → Bytes) (h : Handle) : Handle := { h with key := h.key.rename f }

@[simp] theorem ledger_rename (h : Handle) : (h.rename f).ledger = h.ledger := rfl

@[simp] theorem ackBeforeSync_rename (h : Handle) :
    (h.rename f).ackBeforeSync = h.ackBeforeSync := rfl

@[simp] theorem persisted_rename (h : Handle) : (h.rename f).persisted = h.persisted := rfl

end Handle

def Reopening.rename (f : Bytes → Bytes) (r : Reopening) : Reopening := { r with key := f r.key }

/-- The observer with the key renamed that it presents, if it presents one. -/
def Observer.rename (f : Bytes → Bytes) (o : Observer) : Observer :=
  { o with reopening := o.reopening.map (Reopening.rename f) }

/-- The request with the key renamed that it binds, if it binds one. -/
def Request.rename (f : Bytes → Bytes) : Request → Request
  | .bindKey ledger secret => .bindKey ledger (f secret)
  | r => r

/-- The answer to a request with the key renamed that it tells, if it tells one. -/
def Request.reading (f : Bytes → Bytes) : Request → Answer → Answer
  | .key _, .bytes secret => .bytes (f secret)
  | _, a => a

namespace HandleCall

/-- The call with the key renamed that it presents, if it presents one. -/
def rename (f : Bytes → Bytes) : HandleCall → HandleCall
  | .access presented => .access (f presented)
  | call => call

theorem guarded?_rename (call : HandleCall) : (call.rename f).guarded? = call.guarded? := by
  cases call <;> rfl

theorem request?_rename (call : HandleCall) (l : LedgerId) :
    (call.rename f).request? l = call.request? l := by
  cases call <;> rfl

/-- A call on a handle goes on to the store without a key, and asks for none. -/
theorem request?_blind {call : HandleCall} {l : LedgerId} {r : Request}
    (hr : call.request? l = some r) : r.rename f = r ∧ r.reading f = id := by
  cases call <;> cases hr <;> exact ⟨rfl, funext fun _ => rfl⟩

end HandleCall

/-- The operation with the key renamed that it presents, if it presents one. -/
def Op.rename (f : Bytes → Bytes) : Op → Op
  | .request access r => .request access (r.rename f)
  | .observe observer => .observe (observer.rename f)
  | .openWritable c l presented replay => .openWritable c l (f presented) replay
  | .createHandle l secret ack => .createHandle l (f secret) ack
  | .use handle call => .use handle (call.rename f)
  | op => op

/-- The answer to an operation with the key renamed that it tells, if it tells one. -/
def Op.reading (f : Bytes → Bytes) : Op → Answer → Answer
  | .request _ r => r.reading f
  | _ => id

/-! ### The store -/

theorem Ledger.append_rename (l : Ledger) (e : EntryId) (entry : Bytes) :
    (l.rename f).append e entry = Prod.map id (Ledger.rename f) (l.append e entry) := by
  unfold append rename
  dsimp only
  split
  next => rfl
  next => split <;> rfl

theorem Ledger.watch_rename (l : Ledger) (known : EntryId) (watcher : Watcher) :
    (l.rename f).watch known watcher = Prod.map id (Ledger.rename f) (l.watch known watcher) := by
  unfold watch rename
  dsimp only
  split <;> rfl

namespace Store

variable {α β : Type} {g : α → α} {action action' : StoreAction α} {l : LedgerId}

/-- The store with the key of every ledger renamed. -/
def rename (f : Bytes → Bytes) (s : Store) : Store :=
  { s with ledgers := s.ledgers.mapValues (Ledger.rename f) }

theorem get?_rename (s : Store) (l : LedgerId) :
    (s.rename f).ledgers.get? l = (s.ledgers.get? l).map (Ledger.rename f) :=
  Table.get?_mapValues s.ledgers l

theorem keyOf?_rename (s : Store) (l : LedgerId) :
    (s.rename f).keyOf? l = (s.keyOf? l).map (MasterKey.rename f) := by
  unfold keyOf?
  rw [get?_rename, Option.map_map, Option.map_map]
  rfl

theorem rename_insert (s : Store) (l : LedgerId) (x : Ledger) :
    ({ s with ledgers := s.ledgers.insert l x } : Store).rename f =
      { s.rename f with ledgers := (s.rename f).ledgers.insert l (x.rename f) } :=
  congrArg (Store.mk · s.subscribers) (Table.mapValues_insert s.ledgers l x)

/-- Two actions come to the same in stores with other keys, but for the answer. -/
def Renamed (f : Bytes → Bytes) (g : α → α) (action action' : StoreAction α) : Prop :=
  ∀ s : Store, action' (s.rename f) = (action s).map (Prod.map g (rename f))

/-- A view that shows no key is the same under the names. -/
theorem look_renamed {view : Ledger → α} (hview : ∀ x, view (x.rename f) = g (view x)) :
    Renamed f g (look l view) (look l view) := by
  intro s
  unfold look
  rw [get?_rename]
  cases s.ledgers.get? l with
  | none => rfl
  | some x => exact congrArg (fun a => Except.ok (a, s.rename f)) (hview x)

/-- An update that does not look at the key is the same under the names. -/
theorem change_renamed {update : Ledger → α × Ledger}
    (hupdate : ∀ x, update (x.rename f) = Prod.map id (Ledger.rename f) (update x)) :
    Renamed f id (change l update) (change l update) := by
  intro s
  unfold change
  rw [get?_rename]
  cases s.ledgers.get? l with
  | none => rfl
  | some x =>
      simp only [Option.map_some, hupdate]
      exact congrArg (fun s => Except.ok (_, s)) (rename_insert s l _).symm

/-- A key is bound to a ledger that has none, and compared where there is one already. -/
theorem bindKey_renamed (hf : KeyRenaming f) (l : LedgerId) (secret : Bytes) :
    Renamed f id (bindKey l ⟨secret⟩) (bindKey l ⟨f secret⟩) := by
  intro s
  unfold bindKey
  rw [get?_rename]
  cases s.ledgers.get? l with
  | none => exact congrArg (fun s => Except.ok ((), s)) (rename_insert s l (.create ⟨secret⟩)).symm
  | some x =>
      have haccepts : (x.rename f).key.accepts (f secret) = x.key.accepts secret :=
        hf.accepts x.key secret
      simp only [Option.map_some, haccepts]
      split <;> rfl

theorem key_renamed (l : LedgerId) : Renamed f (MasterKey.rename f) (key l) (key l) :=
  look_renamed fun _ => rfl

theorem confirmed_renamed (l : LedgerId) : Renamed f id (confirmed l) (confirmed l) :=
  look_renamed fun _ => rfl

theorem fence_renamed (l : LedgerId) : Renamed f id (fence l) (fence l) :=
  change_renamed fun _ => rfl

theorem watch_renamed (l : LedgerId) (known : EntryId) (watcher : Watcher) :
    Renamed f id (watch l known watcher) (watch l known watcher) :=
  change_renamed fun x => x.watch_rename known watcher

theorem holds_renamed (l : LedgerId) : Renamed f id (holds l) (holds l) := by
  intro s
  unfold holds
  exact congrArg (fun b => Except.ok (b, s.rename f)) (Table.contains_mapValues s.ledgers l)

/-- The store never looks at a key to take an entry. -/
theorem append_renamed (entry : Bytes) : Renamed f id (append entry) (append entry) := by
  intro s
  unfold append
  split
  next => rfl
  next header _ =>
    split
    next => rfl
    next =>
      rw [get?_rename]
      cases s.ledgers.get? header.ledger with
      | none => rfl
      | some x =>
          simp only [Option.map_some, Ledger.append_rename]
          change (if x.entries.contains header.entry = true then _ else _) = _
          split
          next => rfl
          next => exact congrArg (fun s => Except.ok (_, s)) (rename_insert s _ _).symm

/-- Reading an entry says nothing of the key. -/
theorem entry_renamed (l : LedgerId) (e : EntryId) : Renamed f id (entry l e) (entry l e) := by
  intro s
  unfold entry
  rw [get?_rename]
  cases s.ledgers.get? l with
  | none => rfl
  | some x =>
      have hentry : (x.rename f).entries.get? ((x.rename f).resolve e) =
          x.entries.get? (x.resolve e) := rfl
      simp only [Option.map_some, hentry]
      split <;> rfl

theorem unwatch_renamed (l : LedgerId) (watcher : Watcher) :
    Renamed f id (unwatch l watcher) (unwatch l watcher) := by
  intro s
  unfold unwatch
  rw [get?_rename]
  cases s.ledgers.get? l with
  | none => rfl
  | some x =>
      exact congrArg (fun s => Except.ok ((), s)) (rename_insert s l (x.unwatch watcher)).symm

/-- A removal tells the bit of the ledger that is gone, and not its key. -/
theorem remove_renamed (present : Subscriber → Bool) (l : LedgerId) :
    Renamed f id (remove present l) (remove present l) := by
  intro s
  unfold remove
  rw [get?_rename]
  cases s.ledgers.get? l with
  | none => rfl
  | some x =>
      have herase : (s.ledgers.erase l).mapValues (Ledger.rename f) =
          (s.rename f).ledgers.erase l := Table.mapValues_erase s.ledgers l
      simp only [Option.map_some, ← herase]
      rfl

/-- Answers are made alike if the results are. -/
theorem answering_renamed {h : α → Answer} {h' : α → Answer} {k : Answer → Answer}
    (haction : Renamed f g action action') (hanswer : ∀ a, h' (g a) = k (h a)) :
    Renamed f k (Request.answering action h) (Request.answering action' h') := by
  intro s
  unfold Request.answering
  rw [haction s]
  cases action s with
  | error e => rfl
  | ok r => exact congrArg (fun a => Except.ok (a, r.2.rename f)) (hanswer r.1)

/-- A request under renamed keys is answered alike, but for a request for the key. -/
theorem request_renamed (hf : KeyRenaming f) (r : Request) :
    Renamed f (r.reading f) r.action (r.rename f).action := by
  cases r <;> simp only [Request.action, Request.rename]
  case bindKey l secret => exact answering_renamed (bindKey_renamed hf l secret) fun _ => rfl
  case key l => exact answering_renamed (key_renamed l) fun _ => rfl
  case holds l => exact answering_renamed (holds_renamed l) fun _ => rfl
  case entry l e => exact answering_renamed (entry_renamed l e) fun _ => rfl
  case fence l => exact answering_renamed (fence_renamed l) fun _ => rfl
  case noteConfirmed l stated => exact answering_renamed (change_renamed fun _ => rfl) fun _ => rfl
  case watch l known watcher => exact answering_renamed (watch_renamed l known watcher) fun _ => rfl
  case unwatch l watcher => exact answering_renamed (unwatch_renamed l watcher) fun _ => rfl
  case isFenced l | notedConfirmed l | confirmed l | entryIds l =>
    exact answering_renamed (look_renamed (g := id) fun _ => rfl) fun _ => rfl

end Store

end FencedLedger
