import FencedLedger.Proofs.RenamedSessions
import Mathlib.Data.FinEnum
import Mathlib.Data.Fintype.Sum
import Mathlib.Data.Set.Finite.List

/-!
# Keys are opaque

Nothing that a session does tells more of a master key than its length and which other
keys it equals, a request for the key apart. The names of keys need only keep apart the
keys that are supplied: such a renaming extends to one of all keys, and every key that
the store holds was supplied. How long a comparison takes is no part of a reply.
-/

namespace FencedLedger

variable {f : Bytes → Bytes}

/-! ### Renamings of some keys -/

section Extension

variable {K : Set Bytes}

/-- There are finitely many keys of one length, so the names that are left over go round. -/
theorem exists_extension_at (hlength : ∀ k, (f k).length = k.length) (hinj : Set.InjOn f K)
    (n : Nat) : ∃ e : {k : Bytes // k.length = n} → {k : Bytes // k.length = n},
      Function.Injective e ∧ ∀ k, k.1 ∈ K → (e k).1 = f k.1 := by
  have hfinite : Fintype {k : Bytes // k.length = n} := (List.finite_length_eq UInt8 n).fintype
  have hinj' : Set.InjOn (fun k : {k : Bytes // k.length = n} =>
      (⟨f k.1, (hlength k.1).trans k.2⟩ : {k : Bytes // k.length = n})) {k | k.1 ∈ K} :=
    fun k hk k' hk' h => Subtype.ext (hinj hk hk' (congrArg Subtype.val h))
  obtain ⟨e, he⟩ := Set.MapsTo.exists_equiv_extend_of_card_eq (t := Finset.univ) rfl
    (fun _ _ => Finset.mem_univ _) hinj'
  exact ⟨fun k => (e k).1, Subtype.val_injective.comp e.injective,
    fun k hk => congrArg Subtype.val (he k hk)⟩

/-- A renaming of some keys that keeps lengths extends to one of all keys. -/
theorem KeyRenaming.exists_extension (hlength : ∀ k, (f k).length = k.length)
    (hinj : Set.InjOn f K) :
    ∃ g, KeyRenaming g ∧ (∀ k, (g k).length = k.length) ∧ Set.EqOn g f K := by
  choose e he heq using exists_extension_at hlength hinj
  have hat : ∀ {n} (k : {k : Bytes // k.length = n}), (e k.1.length ⟨k.1, rfl⟩).1 = (e n k).1 := by
    rintro n ⟨k, rfl⟩
    rfl
  have hkept : ∀ k : Bytes, (e k.length ⟨k, rfl⟩).1.length = k.length := fun k => (e _ _).2
  refine ⟨fun k => (e k.length ⟨k, rfl⟩).1, ⟨fun k k' h => ?_, ?_⟩, hkept, fun k hk => heq _ _ hk⟩
  · have hlen : k'.length = k.length :=
      (hkept k').symm.trans ((congrArg List.length h).symm.trans (hkept k))
    have hsame : e k.length ⟨k, rfl⟩ = e k.length ⟨k', hlen⟩ :=
      Subtype.ext (h.trans (hat ⟨k', hlen⟩))
    exact congrArg Subtype.val (he _ hsame)
  · exact List.length_eq_zero_iff.mp (hkept [])

end Extension

namespace Session

/-! ### Supplied keys -/

/-- The keys that commands supply. -/
def suppliedKeys (commands : List Command) : List Bytes := commands.filterMap Command.key?

theorem map_rename_congr {g : Bytes → Bytes} {commands : List Command}
    (h : ∀ k ∈ suppliedKeys commands, f k = g k) :
    commands.map (Command.rename f) = commands.map (Command.rename g) :=
  List.map_congr_left fun command hmem => Command.rename_congr fun k hk =>
    h k (List.mem_filterMap.mpr ⟨command, hmem, hk⟩)

theorem map_rename_id (commands : List Command) : commands.map (Command.rename id) = commands :=
  (List.map_congr_left fun command _ => command.rename_id).trans (List.map_id commands)

/-- Every key in the store was supplied, or is empty: one that was not could be renamed
alone. -/
theorem stored_supplied {faults : Option FaultPlan} {commands : List Command} {l : LedgerId}
    {key : MasterKey}
    (hkey : ((start faults).after commands).host.store.keyOf? l = some key) :
    key.bytes = [] ∨ key.bytes ∈ suppliedKeys commands := by
  by_contra hunsupplied
  obtain ⟨hnil, hnot⟩ := not_or.mp hunsupplied
  obtain ⟨other, hother⟩ :=
    Infinite.exists_notMem_finset (key.bytes :: [] :: suppliedKeys commands).toFinset
  simp only [List.mem_toFinset, List.mem_cons, not_or] at hother
  obtain ⟨hne, hother_nil, hother_not⟩ := hother
  have hswap : KeyRenaming (Equiv.swap key.bytes other) :=
    ⟨Equiv.injective _, Equiv.swap_apply_of_ne_of_ne (Ne.symm hnil) (Ne.symm hother_nil)⟩
  have hcommands : commands.map (Command.rename (Equiv.swap key.bytes other)) = commands := by
    refine (map_rename_congr fun k hk => ?_).trans (map_rename_id commands)
    exact Equiv.swap_apply_of_ne_of_ne (fun h => hnot (h ▸ hk)) fun h => hother_not (h ▸ hk)
  have hafter := after_rename hswap (start faults) commands
  rw [hcommands, start_rename] at hafter
  have hrenamed : some key = some (key.rename (Equiv.swap key.bytes other)) := by
    have hkey' := hkey
    rw [hafter] at hkey'
    exact hkey'.symm.trans
      ((Store.keyOf?_rename _ l).trans (congrArg (Option.map _) hkey))
  have hbytes : key.bytes = Equiv.swap key.bytes other key.bytes :=
    congrArg MasterKey.bytes (Option.some_inj.mp hrenamed)
  rw [Equiv.swap_apply_left] at hbytes
  exact hne hbytes.symm

/-- A reply tells no key but the one that is stored. -/
theorem obey_reading_congr {g : Bytes → Bytes} {s : Session}
    (h : ∀ l key, s.host.store.keyOf? l = some key → f key.bytes = g key.bytes)
    (command : Command) :
    (s.obey command).1.map (command.reading f) = (s.obey command).1.map (command.reading g) := by
  cases command with
  | request access r =>
      cases r with
      | key l =>
          change Except.map _ (s.performReply (.request access (.key l))).1 =
            Except.map _ (s.performReply (.request access (.key l))).1
          rw [performReply_eq]
          change Except.map _ (Except.map _ (Host.answer _ _ (s.host.request access (.key l))).1) =
            Except.map _ (Except.map _ (Host.answer _ _ (s.host.request access (.key l))).1)
          cases hrequest : s.host.request access (.key l) with
          | mk answer w =>
              cases answer with
              | error e => rfl
              | ok a =>
                  have hanswering := (Host.send_ok hrequest).1
                  simp only [Request.action] at hanswering
                  obtain ⟨key, hact, rfl⟩ := Store.answering_ok hanswering
                  exact congrArg (fun k => Except.ok (Reply.answer (.bytes k)))
                    (h l key (Store.key_eq hact).2)
      | _ => rfl
  | _ => rfl

/-- Two ways to name keys that agree on the keys of the store give the same replies. -/
theorem retell_congr {g : Bytes → Bytes} {s : Session} {commands : List Command}
    (h : ∀ before, before <+: commands → ∀ l key,
      (s.after before).host.store.keyOf? l = some key → f key.bytes = g key.bytes) :
    List.zipWith (Command.retell f) commands (s.run commands) =
      List.zipWith (Command.retell g) commands (s.run commands) := by
  induction commands generalizing s with
  | nil => rfl
  | cons command commands ih =>
      have hhead : command.retell f (s.step command).1 = command.retell g (s.step command).1 :=
        congrArg (Step.mk · (s.step command).1.events)
          (obey_reading_congr (s := s.quiet) (h [] List.nil_prefix) command)
      have htail := ih (s := (s.step command).2) fun before hbefore =>
        h (command :: before) (List.cons_prefix_cons.mpr ⟨rfl, hbefore⟩)
      unfold run
      rw [List.zipWith_cons_cons, List.zipWith_cons_cons]
      exact congr (congrArg List.cons hhead) htail

/-- In every run, under every fault plan, the master keys may have other names of the same
lengths, if different keys that are supplied have different names. Every command comes to
what it came to, reply and events, but the request for a key, which tells its name. -/
theorem master_keys_are_opaque (f : Bytes → Bytes) (faults : Option FaultPlan)
    (commands : List Command) (hlength : ∀ k, (f k).length = k.length)
    (hinj : Set.InjOn f {k | k ∈ suppliedKeys commands}) :
    (start faults).run (commands.map (Command.rename f)) =
      List.zipWith (Command.retell f) commands ((start faults).run commands) := by
  obtain ⟨g, hg, hglength, hgf⟩ := KeyRenaming.exists_extension hlength hinj
  have hrun := run_rename hg hglength (start faults) commands
  rw [start_rename, map_rename_congr hgf] at hrun
  rw [hrun]
  refine retell_congr fun before hbefore l key hkey => ?_
  rcases stored_supplied hkey with hnil | hsupplied
  · rw [hnil, hg.nil]
    exact (List.length_eq_zero_iff.mp (hlength [])).symm
  · exact hgf (List.IsPrefix.subset (hbefore.filterMap _) hsupplied)

/-- The key with every bit flipped. -/
def flipped (k : Bytes) : Bytes := k.map fun b => ~~~b

/-- A wrong key is refused for the stored key, by the store when the stored key could not
be looked at, and by the handle. In the end the key is asked for. -/
def refusing : List Command :=
  [.request .planned (.bindKey ⟨1⟩ [7]), .createCache "c" .trial,
    .openWritable "c" ⟨1⟩ [8] false "h", .planFault .key ⟨some 1, .noLedger ⟨1⟩⟩,
    .openWritable "c" ⟨1⟩ [8] false "h", .openWritable "c" ⟨1⟩ [7] false "h",
    .openWritable "c" ⟨1⟩ [8] false "h", .use "h" (.access [8]), .handleDump "h",
    .request .planned (.key ⟨1⟩)]

/-- Four of the commands are refused, also with flipped keys. -/
theorem refused_under_flipped_keys :
    (∀ k, (flipped k).length = k.length) ∧
      Set.InjOn flipped {k | k ∈ suppliedKeys refusing} ∧
      ((start (some .empty)).run refusing).map (fun step => step.result.toOption.isSome) =
        [true, true, false, true, false, true, false, false, true, true] ∧
      (start (some .empty)).run (refusing.map (Command.rename flipped)) =
        List.zipWith (Command.retell flipped) refusing ((start (some .empty)).run refusing) := by
  have hlength : ∀ k, (flipped k).length = k.length := fun k => List.length_map _
  have hinjective : Function.Injective flipped :=
    List.map_injective_iff.mpr fun a b h => UInt8.not_inj.mp h
  exact ⟨hlength, hinjective.injOn, by decide +kernel,
    master_keys_are_opaque flipped (some .empty) refusing hlength hinjective.injOn⟩

end Session

end FencedLedger
