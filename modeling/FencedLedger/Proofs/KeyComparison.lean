import FencedLedger.MasterKey

/-!
# Comparing master keys

The comparison walks over the stored bytes only, and reads zeros where the supplied bytes
have ended. So it finds no difference in a longer string that begins with the key, nor in a
shorter one where the key ends in zeros; it is the test of the lengths that refuses those.
Together the two accept the key and nothing else, from whichever side one asks. That the
walk takes as long for every key of a length is no part of the model.
-/

namespace FencedLedger

namespace MasterKey

/-- The byte at a position of the supplied ones, and zero beyond their end, is all that the
comparison sees of them. -/
theorem difference_eq_zero_iff {stored supplied : Bytes} :
    difference stored supplied = 0 ↔
      ∀ (i : Nat) (h : i < stored.length), stored[i] = supplied.getD i 0 := by
  induction stored generalizing supplied with
  | nil => exact iff_of_true rfl nofun
  | cons b stored ih =>
      have hhead : supplied.headD 0 = supplied.getD 0 0 := by cases supplied <;> rfl
      have htail : ∀ i, supplied.tail.getD i 0 = supplied.getD (i + 1) 0 := by
        cases supplied <;> intro i <;> rfl
      unfold difference
      rw [UInt8.or_eq_zero_iff, UInt8.xor_eq_zero_iff, ih, hhead]
      constructor
      · rintro ⟨hb, hrest⟩ i hi
        cases i with
        | zero => exact hb
        | succ i => exact (hrest i (Nat.lt_of_succ_lt_succ hi)).trans (htail i)
      · intro hall
        refine ⟨hall 0 (Nat.zero_lt_succ _), fun i hi => ?_⟩
        exact (hall (i + 1) (Nat.succ_lt_succ hi)).trans (htail i).symm

/-- Of two strings of one length, the comparison sees every byte. -/
theorem eq_of_difference_eq_zero {stored supplied : Bytes}
    (hlength : stored.length = supplied.length) (h : difference stored supplied = 0) :
    stored = supplied := by
  refine List.ext_getElem hlength fun i hi hi' => ?_
  rw [difference_eq_zero_iff.mp h i hi]
  simp [hi']

/-- A longer string that begins with the stored bytes differs from them in none. -/
theorem difference_append (stored more : Bytes) : difference stored (stored ++ more) = 0 := by
  refine difference_eq_zero_iff.mpr fun i hi => ?_
  simp [List.getElem?_append_left hi, hi]

/-- Each of two keys accepts the other only if they are the same. -/
theorem eq_of_accepts {key key' : MasterKey} (h : key.accepts key'.bytes = true) :
    key = key' := by
  obtain ⟨bytes⟩ := key
  obtain ⟨bytes'⟩ := key'
  unfold accepts at h
  rw [Bool.and_eq_true, decide_eq_true_iff, beq_iff_eq] at h
  exact congrArg MasterKey.mk (eq_of_difference_eq_zero h.1 h.2)

theorem difference_self (bytes : Bytes) : difference bytes bytes = 0 := by
  simpa using difference_append bytes []

/-- Just the bytes of the key are accepted. -/
theorem accepts_iff {key : MasterKey} {presented : Bytes} :
    key.accepts presented = true ↔ key = ⟨presented⟩ := by
  constructor
  · intro h
    exact eq_of_accepts h
  · rintro rfl
    simp [accepts, difference_self]

/-- Whether a key accepts a string is whether the two are equal. -/
theorem accepts_eq_decide (stored supplied : Bytes) :
    (MasterKey.mk stored).accepts supplied = decide (stored = supplied) := by
  rw [Bool.eq_iff_iff, accepts_iff, MasterKey.mk.injEq, decide_eq_true_iff]

/-- The comparison is equality of byte strings, of whatever lengths. Neither what a key
begins with nor what begins with it is the key, nor is a string with another number of
zeros at the end. The empty key is itself alone. It does not matter which of two keys is
the stored one. -/
theorem comparison_is_equality :
    (∀ stored supplied : Bytes, (MasterKey.mk stored).accepts supplied = true ↔
      stored = supplied) ∧
    (∀ (bytes : Bytes) (b : UInt8) (more : Bytes),
      (MasterKey.mk (bytes ++ b :: more)).accepts bytes = false ∧
        (MasterKey.mk bytes).accepts (bytes ++ b :: more) = false) ∧
    (∀ (bytes : Bytes) (m n : Nat),
      (MasterKey.mk (bytes ++ List.replicate m 0)).accepts (bytes ++ List.replicate n 0) =
        decide (m = n)) ∧
    (∀ bytes : Bytes, (MasterKey.mk []).accepts bytes = bytes.isEmpty ∧
      (MasterKey.mk bytes).accepts [] = bytes.isEmpty) ∧
    ∀ key key' : MasterKey, key.accepts key'.bytes = key'.accepts key.bytes := by
  refine ⟨fun stored supplied => ?_, fun bytes b more => ?_, fun bytes m n => ?_,
    fun bytes => ?_, fun key key' => ?_⟩
  · rw [accepts_eq_decide, decide_eq_true_iff]
  · simp [accepts_eq_decide]
  · simp [accepts_eq_decide, List.replicate_inj]
  · cases bytes <;> simp [accepts_eq_decide]
  · rw [Bool.eq_iff_iff, accepts_iff, accepts_iff]
    exact eq_comm

end MasterKey

end FencedLedger
