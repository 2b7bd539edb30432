/-!
# Big-endian words

Byte strings, and 64-bit signed words written most significant byte first. On
eight bytes, reading and writing a word are inverse to each other, in both
directions: `decodeWord_encodeWord` and `encodeWord_decodeWord`.
-/

namespace FencedLedger

/-- A byte string. -/
abbrev Bytes := List UInt8

namespace BigEndian

/-- The `width` big-endian bytes of `n`. Digits that do not fit are dropped. -/
def encode : (width : Nat) → Nat → Bytes
  | 0, _ => []
  | width + 1, n => encode width (n / 256) ++ [UInt8.ofNat n]

/-- The number whose big-endian bytes follow those of `high`. -/
def decodeFrom (high : Nat) : Bytes → Nat
  | [] => high
  | b :: rest => decodeFrom (256 * high + b.toNat) rest

/-- The number with the given big-endian bytes. -/
def decode (bs : Bytes) : Nat := decodeFrom 0 bs

/-- The eight bytes of a signed word. -/
def encodeWord (x : Int64) : Bytes := encode 8 x.toUInt64.toNat

/-- The signed word with the given bytes, of which the last eight count. -/
def decodeWord (bs : Bytes) : Int64 := (UInt64.ofNat (decode bs)).toInt64

@[simp] theorem length_encode (width n : Nat) : (encode width n).length = width := by
  induction width generalizing n with
  | zero => rfl
  | succ width ih => simp [encode, ih]

@[simp] theorem length_encodeWord (x : Int64) : (encodeWord x).length = 8 :=
  length_encode 8 _

/-- The most significant digit of a number stands first. -/
theorem getElem?_encode {width i : Nat} (n : Nat) (hi : i < width) :
    (encode width n)[i]? = some (UInt8.ofNat (n >>> (8 * (width - 1 - i)))) := by
  induction width generalizing n with
  | zero => omega
  | succ width ih =>
      have hlength := length_encode width (n / 256)
      rw [encode]
      by_cases hlast : i = width
      case pos =>
        rw [List.getElem?_append_right (by omega), hlength, hlast]
        simp
      case neg =>
        have hdigit : 8 * (width + 1 - 1 - i) = 8 + 8 * (width - 1 - i) := by omega
        rw [List.getElem?_append_left (by omega), ih _ (by omega), hdigit, Nat.shiftRight_add,
          Nat.shiftRight_eq_div_pow n 8]

example : encodeWord (-0x2000) = [0xff, 0xff, 0xff, 0xff, 0xff, 0xff, 0xe0, 0x00] := by
  decide

theorem decodeFrom_append (high : Nat) (bs cs : Bytes) :
    decodeFrom high (bs ++ cs) = decodeFrom (decodeFrom high bs) cs := by
  induction bs generalizing high with
  | nil => rfl
  | cons b rest ih => exact ih _

theorem decode_concat (bs : Bytes) (b : UInt8) :
    decode (bs ++ [b]) = 256 * decode bs + b.toNat := by
  simp [decode, decodeFrom_append, decodeFrom]

/-- Digits beyond the width are dropped, and the others are read back. -/
theorem decode_encode (width n : Nat) : decode (encode width n) = n % Nat.pow 256 width := by
  induction width generalizing n with
  | zero => simp [encode, decode, decodeFrom, Nat.mod_one]
  | succ width ih =>
      have hbyte : (UInt8.ofNat n).toNat = n % 256 := UInt8.toNat_ofNat'
      have hpow : Nat.pow 256 (width + 1) = 256 * Nat.pow 256 width := Nat.mul_comm _ _
      rw [encode, decode_concat, ih, hbyte, hpow, Nat.mod_mul, Nat.add_comm]

/-- So many bytes hold no larger number. -/
theorem decode_lt (n : Nat) (bs : Bytes) (h : bs.length = n) : decode bs < Nat.pow 256 n := by
  induction n generalizing bs with
  | zero => simp [List.length_eq_zero_iff.mp h, decode, decodeFrom]
  | succ n ih =>
      obtain rfl | ⟨cs, b, rfl⟩ := List.eq_nil_or_concat bs
      · simp at h
      · have hb := b.toNat_lt
        have hcs := ih cs (by simpa using h)
        have hpow : Nat.pow 256 (n + 1) = 256 * Nat.pow 256 n := Nat.mul_comm _ _
        rw [List.concat_eq_append, decode_concat, hpow]
        omega

/-- A number is written with the bytes that it was read from. -/
theorem encode_decode (n : Nat) (bs : Bytes) (h : bs.length = n) : encode n (decode bs) = bs := by
  induction n generalizing bs with
  | zero => simp [List.length_eq_zero_iff.mp h, encode]
  | succ n ih =>
      obtain rfl | ⟨cs, b, rfl⟩ := List.eq_nil_or_concat bs
      · simp at h
      · have hb := b.toNat_lt
        have hdiv : (256 * decode cs + b.toNat) / 256 = decode cs := by omega
        have hlow : UInt8.ofNat (256 * decode cs + b.toNat) = b := by
          apply UInt8.toNat_inj.mp
          rw [UInt8.toNat_ofNat']
          omega
        rw [List.concat_eq_append, decode_concat, encode, hdiv, ih cs (by simpa using h), hlow]

theorem decodeWord_encodeWord (x : Int64) : decodeWord (encodeWord x) = x := by
  unfold decodeWord encodeWord
  have hlt : x.toUInt64.toNat < Nat.pow 256 8 := x.toUInt64.toNat_lt
  rw [decode_encode, Nat.mod_eq_of_lt hlt, UInt64.ofNat_toNat]
  rfl

/-- On eight bytes, nothing is lost by reading them as a word. -/
theorem encodeWord_decodeWord {bs : Bytes} (h : bs.length = 8) :
    encodeWord (decodeWord bs) = bs := by
  have hlt : decode bs < 2 ^ 64 := decode_lt 8 bs h
  have hnat : (decodeWord bs).toUInt64.toNat = decode bs := by
    change (UInt64.ofNat (decode bs)).toNat = decode bs
    rw [UInt64.toNat_ofNat', Nat.mod_eq_of_lt hlt]
  unfold encodeWord
  rw [hnat, encode_decode 8 bs h]

end BigEndian

end FencedLedger
