import Mathlib.Data.List.Count
import Mathlib.Data.List.Induction
import Mathlib.Data.List.Nodup
import FencedLedger.WatchList

/-!
# Who is listed

A watch list is asked for three things, and what it was asked decides whom it lists and in
which order. A watcher is listed from the call that first registers it to the call that
strikes it or finds it ready, with what it was registered with last, and stands before
whoever was listed later. So a watch list is a list of pairs that is searched, mapped and
filtered, no watcher is listed twice, and as often as one is listed it leaves again or is
still there.
-/

namespace FencedLedger

/-- A call on a watch list. -/
inductive WatchCall (ω : Type) where
  | register (who : ω) (known : EntryId)
  | cancel (who : ω)
  | takeReady (confirmed : EntryId)

/-- What a watch list answers. -/
inductive WatchAnswer (ω : Type) where
  | done
  /-- Whether the watcher was there. -/
  | struck (b : Bool)
  /-- The watchers who are ready, in order. -/
  | ready (watchers : List ω)

/-- A watcher came onto a list, or left it. -/
inductive Passage (ω : Type) where
  | listed (who : ω)
  | struck (who : ω)
  | taken (who : ω)
  deriving DecidableEq

/-- What is known of a watcher that is listed: how many calls there were before the one that
listed it, and the entry that it knows of. -/
structure Registration where
  place : Nat
  known : EntryId

variable {ω : Type} [DecidableEq ω]

/-! ### Lists of pairs -/

namespace WatchCall

/-- What a call does to a list of pairs, and what it answers. -/
def onPairs (bs : List (ω × EntryId)) : WatchCall ω → WatchAnswer ω × List (ω × EntryId)
  | .register who known =>
      (.done, if who ∈ bs.map Prod.fst then bs.map fun b => if b.1 = who then (who, known) else b
        else bs ++ [(who, known)])
  | .cancel who => (.struck (decide (who ∈ bs.map Prod.fst)), bs.filter fun b => b.1 ≠ who)
  | .takeReady confirmed =>
      (.ready ((bs.filter fun b => b.2 < confirmed).map Prod.fst),
        bs.filter fun b => ¬ b.2 < confirmed)

/-- What calls do to a list of pairs, one after the other, and what they answer. -/
def allOnPairs (bs : List (ω × EntryId)) :
    List (WatchCall ω) → List (WatchAnswer ω) × List (ω × EntryId)
  | [] => ([], bs)
  | call :: calls =>
      let (answer, bs) := call.onPairs bs
      let (answers, bs) := allOnPairs bs calls
      (answer :: answers, bs)

/-- What becomes of the registration of a watcher in a call before which there were
`place` others. A watcher that registers again keeps its place. -/
def renew (who : ω) (place : Nat) (r : Option Registration) : WatchCall ω → Option Registration
  | .register who' known =>
      if who' = who then some ⟨(r.map Registration.place).getD place, known⟩ else r
  | .cancel who' => if who' = who then none else r
  | .takeReady confirmed => r.filter fun r => !decide (r.known < confirmed)

/-- The registration of a watcher after calls on a list that was empty, as far as these tell
it. -/
def registration? (calls : List (WatchCall ω)) (who : ω) : Option Registration :=
  calls.zipIdx.foldl (fun r x => x.1.renew who x.2 r) none

theorem registration?_concat (calls : List (WatchCall ω)) (call : WatchCall ω) (who : ω) :
    registration? (calls ++ [call]) who =
      call.renew who calls.length (registration? calls who) := by
  simp [registration?, List.zipIdx_append]

end WatchCall

namespace WatchList

/-- Make a call. -/
def serve (l : WatchList ω) : WatchCall ω → WatchAnswer ω × WatchList ω
  | .register who known => (.done, l.register who known)
  | .cancel who => (.struck (decide ((l.cancel who).size ≠ l.size)), l.cancel who)
  | .takeReady confirmed =>
      let (ready, l) := l.takeReady confirmed
      (.ready ready, l)

/-- Make calls, one after the other. -/
def serveAll (l : WatchList ω) :
    List (WatchCall ω) → List (WatchAnswer ω) × WatchList ω
  | [] => ([], l)
  | call :: calls =>
      let (answer, l) := l.serve call
      let (answers, l) := l.serveAll calls
      (answer :: answers, l)

/-- Who comes and goes in a call. -/
def passages (l : WatchList ω) : WatchCall ω → List (Passage ω)
  | .register who _ => if l.contains who then [] else [.listed who]
  | .cancel who => if l.contains who then [.struck who] else []
  | .takeReady confirmed => (l.takeReady confirmed).1.map .taken

/-- Who comes and goes in calls, one after the other. -/
def passagesOver (l : WatchList ω) : List (WatchCall ω) → List (Passage ω)
  | [] => []
  | call :: calls => l.passages call ++ (l.serve call).2.passagesOver calls

/-! ### One call -/

/-- A watcher that is listed gets the new value in its place. -/
theorem assign_of_mem {who : ω} {bs : List (ω × EntryId)} (hdistinct : (bs.map Prod.fst).Nodup)
    (h : who ∈ bs.map Prod.fst) (known : EntryId) :
    Table.assign who known bs = bs.map fun b => if b.1 = who then (who, known) else b := by
  induction bs with
  | nil => cases h
  | cons b rest ih =>
      obtain ⟨hb, hrest⟩ := List.nodup_cons.mp hdistinct
      unfold Table.assign
      by_cases hwho : b.1 = who
      · -- nobody else is this watcher
        have hothers : ∀ b' ∈ rest, ¬ b'.1 = who := fun b' hb' heq =>
          hb (hwho ▸ heq ▸ List.mem_map_of_mem hb')
        rw [if_pos hwho, List.map_cons, if_pos hwho]
        refine congrArg _ (Eq.symm ?_)
        exact List.map_congr_left (fun b' hb' => if_neg (hothers b' hb')) |>.trans (List.map_id _)
      · have hlater : who ∈ rest.map Prod.fst :=
          (List.mem_cons.mp h).resolve_left fun heq => hwho heq.symm
        rw [if_neg hwho, List.map_cons, if_neg hwho, ih hrest hlater]

/-- The list changes its length just when the watcher that is struck was there. -/
theorem size_cancel_ne_iff (l : WatchList ω) (who : ω) :
    (l.cancel who).size ≠ l.size ↔ who ∈ l.known.entries.map Prod.fst := by
  change (l.known.entries.filter _).length ≠ l.known.entries.length ↔ _
  rw [Ne, List.length_filter_eq_length_iff]
  simp

/-- A watch list does what a list of pairs does. -/
theorem serve_eq_onPairs (l : WatchList ω) (call : WatchCall ω) :
    call.onPairs l.known.entries = ((l.serve call).1, (l.serve call).2.known.entries) := by
  cases call with
  | register who known =>
      refine Prod.ext rfl ?_
      change (if _ then _ else _) = Table.assign who known l.known.entries
      split
      next hlisted => exact (assign_of_mem l.known.distinct hlisted known).symm
      next hnew =>
        exact (Table.assign_of_lookup_eq_none (Table.lookup_eq_none_iff.mpr hnew) known).symm
  | cancel who =>
      refine Prod.ext (congrArg WatchAnswer.struck ?_) rfl
      exact decide_eq_decide.mpr (size_cancel_ne_iff l who).symm
  | takeReady confirmed =>
      refine Prod.ext rfl (List.filter_congr fun b _ => ?_)
      exact decide_not

theorem mem_keys_cancel {l : WatchList ω} {who who' : ω} :
    who ∈ (l.cancel who').known.keys ↔ who ∈ l.known.keys ∧ who ≠ who' := by
  have hkeys : (l.cancel who').known.keys = l.known.keys.filter (fun w => w ≠ who') :=
    (List.filter_map (f := Prod.fst) (p := fun w : ω => decide (w ≠ who'))).symm
  rw [hkeys, List.mem_filter, decide_eq_true_iff]

omit [DecidableEq ω] in
/-- The watchers who are ready, and those who are not, are the watchers. -/
theorem perm_takeReady (l : WatchList ω) (confirmed : EntryId) :
    ((l.takeReady confirmed).1 ++ (l.takeReady confirmed).2.known.keys).Perm l.known.keys := by
  have hsplit := List.filter_append_perm (fun b : ω × EntryId => decide (b.2 < confirmed))
    l.known.entries
  have hnames := hsplit.map Prod.fst
  rwa [List.map_append] at hnames

/-- Whoever comes in a call is listed afterwards, and whoever leaves was listed before. -/
theorem count_passages (l : WatchList ω) (call : WatchCall ω) (who : ω) :
    l.known.keys.count who + (l.passages call).count (.listed who) =
      (l.passages call).count (.struck who) + (l.passages call).count (.taken who) +
        (l.serve call).2.known.keys.count who := by
  cases call with
  | register who' known =>
      have hkeys : (l.register who' known).known.keys = _ := Table.keys_insert l.known who' known
      simp only [passages, serve, hkeys, contains, Table.contains_iff]
      split
      next => simp
      next => simp [List.count_singleton]
  | cancel who' =>
      simp only [passages, serve, contains, Table.contains_iff,
        l.known.nodup_keys.count, (l.cancel who').known.nodup_keys.count, mem_keys_cancel]
      by_cases hwho : who = who'
      · subst hwho
        by_cases hlisted : who ∈ l.known.keys <;> simp [hlisted]
      · by_cases hlisted : who' ∈ l.known.keys <;> simp [hwho, Ne.symm hwho, hlisted]
  | takeReady confirmed =>
      have htaken : ((l.takeReady confirmed).1.map Passage.taken).count (.taken who) =
          (l.takeReady confirmed).1.count who :=
        List.count_map_of_injective _ _ (fun _ _ h => Passage.taken.inj h) _
      -- the list is split into those who are taken and those who stay
      have hsplit := (perm_takeReady l confirmed).count_eq who
      rw [List.count_append] at hsplit
      have hlisted : ((l.takeReady confirmed).1.map Passage.taken).count (.listed who) = 0 :=
        List.count_eq_zero.mpr (by simp)
      have hstruck : ((l.takeReady confirmed).1.map Passage.taken).count (.struck who) = 0 :=
        List.count_eq_zero.mpr (by simp)
      simp only [passages, serve, htaken, hlisted, hstruck]
      omega

/-! ### Every call -/

/-- Over any calls, as often as a watcher comes it leaves again or is still there. -/
theorem count_passagesOver (l : WatchList ω) (calls : List (WatchCall ω)) (who : ω) :
    l.known.keys.count who + (l.passagesOver calls).count (.listed who) =
      (l.passagesOver calls).count (.struck who) + (l.passagesOver calls).count (.taken who) +
        (l.serveAll calls).2.known.keys.count who := by
  induction calls generalizing l with
  | nil => simp [passagesOver, serveAll]
  | cons call calls ih =>
      have hfirst := count_passages l call who
      have hlater := ih (l.serve call).2
      simp only [passagesOver, serveAll, List.count_append]
      omega

theorem serveAll_eq_allOnPairs (l : WatchList ω) (calls : List (WatchCall ω)) :
    WatchCall.allOnPairs l.known.entries calls =
      ((l.serveAll calls).1, (l.serveAll calls).2.known.entries) := by
  induction calls generalizing l with
  | nil => rfl
  | cons call calls ih =>
      simp only [WatchCall.allOnPairs, serveAll, serve_eq_onPairs l call, ih (l.serve call).2]

theorem serveAll_concat (l : WatchList ω) (calls : List (WatchCall ω)) (call : WatchCall ω) :
    (l.serveAll (calls ++ [call])).2 = ((l.serveAll calls).2.serve call).2 := by
  induction calls generalizing l with
  | nil => rfl
  | cons first calls ih => exact ih (l.serve first).2

end WatchList

/-! ### Who is listed, from the calls alone -/

/-- A list of pairs has the watchers that calls leave registered, in the order in which these
were listed. -/
structure Stands (calls : List (WatchCall ω)) (bs : List (ω × EntryId))
    (standing : List (ω × Registration)) : Prop where
  pairs : bs = standing.map fun s => (s.1, s.2.known)
  ordered : standing.Pairwise fun s t => s.2.place < t.2.place
  earlier : ∀ s ∈ standing, s.2.place < calls.length
  recorded : ∀ s, s ∈ standing ↔ WatchCall.registration? calls s.1 = some s.2

namespace Stands

variable {calls : List (WatchCall ω)} {bs : List (ω × EntryId)}
  {standing : List (ω × Registration)}

theorem nil : Stands ([] : List (WatchCall ω)) [] [] where
  pairs := rfl
  ordered := List.Pairwise.nil
  earlier := fun _ hs => nomatch hs
  recorded := fun s => by simp [WatchCall.registration?]

/-- Who is listed is who was registered and not struck or found ready since. -/
theorem mem_names_iff (h : Stands calls bs standing) {who : ω} :
    who ∈ bs.map Prod.fst ↔ ∃ r, WatchCall.registration? calls who = some r := by
  rw [h.pairs, List.map_map, List.mem_map]
  constructor
  · rintro ⟨s, hs, rfl⟩
    exact ⟨s.2, (h.recorded s).mp hs⟩
  · rintro ⟨r, hr⟩
    exact ⟨(who, r), (h.recorded (who, r)).mpr hr, rfl⟩

/-- A watcher that is there and registers again keeps its place. -/
theorem renewed (h : Stands calls bs standing) {who : ω} (known : EntryId)
    (hlisted : who ∈ bs.map Prod.fst) :
    Stands (calls ++ [.register who known])
      (bs.map fun b => if b.1 = who then (who, known) else b)
      (standing.map fun s => if s.1 = who then (who, ⟨s.2.place, known⟩) else s) where
  pairs := by
    rw [h.pairs, List.map_map, List.map_map]
    refine List.map_congr_left fun s _ => ?_
    by_cases hwho : s.1 = who <;> simp [hwho]
  ordered := by
    refine List.pairwise_map.mpr (h.ordered.imp fun {s t} hst => ?_)
    by_cases hs : s.1 = who <;> by_cases ht : t.1 = who <;> simpa [hs, ht] using hst
  earlier := by
    intro s hs
    obtain ⟨t, ht, rfl⟩ := List.mem_map.mp hs
    rw [List.length_append]
    split <;> exact Nat.lt_succ_of_lt (h.earlier t ht)
  recorded := by
    rintro ⟨w, r'⟩
    rw [WatchCall.registration?_concat, WatchCall.renew, List.mem_map]
    obtain ⟨r, hr⟩ := h.mem_names_iff.mp hlisted
    split
    next hwho =>
      subst hwho
      constructor
      · rintro ⟨t, ht, heq⟩
        split at heq
        next hsame =>
          -- the watcher has one registration
          have hplace : t.2 = r := Option.some.inj ((hsame ▸ (h.recorded t).mp ht).symm.trans hr)
          subst hplace
          rw [hr, ← congrArg Prod.snd heq]
          rfl
        next hother => exact absurd (congrArg Prod.fst heq) hother
      · intro heq
        rw [hr] at heq
        exact ⟨(who, r), (h.recorded (who, r)).mpr hr,
          (if_pos rfl).trans (congrArg _ (Option.some.inj heq))⟩
    next hwho =>
      constructor
      · rintro ⟨t, ht, heq⟩
        split at heq
        next => exact absurd (congrArg Prod.fst heq) hwho
        next => exact (h.recorded _).mp (heq ▸ ht)
      · exact fun hr' => ⟨(w, r'), (h.recorded _).mpr hr', if_neg (Ne.symm hwho)⟩

/-- A watcher that is not there is listed last. -/
theorem listed (h : Stands calls bs standing) {who : ω} (known : EntryId)
    (habsent : who ∉ bs.map Prod.fst) :
    Stands (calls ++ [.register who known]) (bs ++ [(who, known)])
      (standing ++ [(who, ⟨calls.length, known⟩)]) where
  pairs := by rw [h.pairs, List.map_append]; rfl
  ordered := by
    refine List.pairwise_append.mpr ⟨h.ordered, List.pairwise_singleton _ _, ?_⟩
    intro s hs t ht
    rw [List.mem_singleton.mp ht]
    exact h.earlier s hs
  earlier := by
    intro s hs
    rw [List.length_append]
    rcases List.mem_append.mp hs with hs | hs
    · exact Nat.lt_succ_of_lt (h.earlier s hs)
    · rw [List.mem_singleton.mp hs]
      exact Nat.lt_succ_self _
  recorded := by
    rintro ⟨w, r⟩
    have hnone : WatchCall.registration? calls who = none := by
      rw [Option.eq_none_iff_forall_ne_some]
      exact fun r hr => habsent (h.mem_names_iff.mpr ⟨r, hr⟩)
    rw [WatchCall.registration?_concat, WatchCall.renew, List.mem_append, h.recorded,
      List.mem_singleton]
    split
    next hwho =>
      subst hwho
      simp [hnone, eq_comm]
    next hwho => simp [Ne.symm hwho]

/-- A call that only strikes watchers leaves the others as they stand. -/
theorem kept (h : Stands calls bs standing) {call : WatchCall ω} (p : ω × EntryId → Bool)
    (hcall : ∀ who r, call.renew who calls.length r = r.filter fun r => p (who, r.known)) :
    Stands (calls ++ [call]) (bs.filter p) (standing.filter fun s => p (s.1, s.2.known)) where
  pairs := by rw [h.pairs, List.filter_map]; rfl
  ordered := h.ordered.filter _
  earlier := by
    intro s hs
    rw [List.length_append]
    exact Nat.lt_succ_of_lt (h.earlier s (List.mem_of_mem_filter hs))
  recorded := by
    intro s
    rw [WatchCall.registration?_concat, hcall, Option.filter_eq_some_iff, List.mem_filter,
      h.recorded]

/-- What each watcher was registered with last is known after the next call, too. -/
theorem after (h : Stands calls bs standing) (call : WatchCall ω) :
    ∃ standing', Stands (calls ++ [call]) (call.onPairs bs).2 standing' := by
  cases call with
  | register who known =>
      rw [WatchCall.onPairs]
      split
      next hlisted => exact ⟨_, h.renewed known hlisted⟩
      next habsent => exact ⟨_, h.listed known habsent⟩
  | cancel who =>
      refine ⟨_, h.kept (fun b => b.1 ≠ who) fun who' r => ?_⟩
      cases r <;> by_cases hwho : who' = who <;>
        simp [WatchCall.renew, Option.filter, hwho, eq_comm (a := who)]
  | takeReady confirmed =>
      refine ⟨_, h.kept (fun b => ¬ b.2 < confirmed) fun who' r => ?_⟩
      simp [WatchCall.renew]

end Stands

namespace WatchList

/-- Whatever a list was asked, each watcher stands as it was registered last. -/
theorem stands_serveAll (calls : List (WatchCall ω)) :
    ∃ standing, Stands calls ((empty : WatchList ω).serveAll calls).2.known.entries standing := by
  induction calls using List.reverseRecOn with
  | nil => exact ⟨[], .nil⟩
  | append_singleton calls call ih =>
      obtain ⟨standing, h⟩ := ih
      have hcall := h.after call
      rwa [serve_eq_onPairs, ← serveAll_concat] at hcall

/-- Whatever a watch list is asked, it answers like a list of pairs and has the same pairs: a
watcher that registers again keeps its place and one that was not there comes last, a watcher
that is struck leaves, and those who are ready leave in order. No watcher is listed twice. Who
is listed, since when and with what is told by the calls. As often as a watcher was listed
it was struck or found ready since, or it is still there. -/
theorem serves_as_ordered_pairs (calls : List (WatchCall ω)) :
    let l := ((empty : WatchList ω).serveAll calls).2
    WatchCall.allOnPairs [] calls =
        (((empty : WatchList ω).serveAll calls).1, l.known.entries) ∧
      l.known.keys.Nodup ∧
      (∃ standing, Stands calls l.known.entries standing) ∧
      ∀ who,
        ((empty : WatchList ω).passagesOver calls).count (.listed who) =
          ((empty : WatchList ω).passagesOver calls).count (.struck who) +
            ((empty : WatchList ω).passagesOver calls).count (.taken who) +
            l.known.keys.count who := by
  refine ⟨serveAll_eq_allOnPairs empty calls, Table.nodup_keys _, stands_serveAll calls,
    fun who => ?_⟩
  have hcount := count_passagesOver empty calls who
  rwa [show (empty : WatchList ω).known.keys.count who = 0 from rfl, Nat.zero_add] at hcount

end WatchList

end FencedLedger
