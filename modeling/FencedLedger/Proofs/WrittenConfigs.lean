import FencedLedger.Config
import FencedLedger.Proofs.WrittenDurations

/-!
# Configurations that are written are read

A written configuration is a JSON map of three members, in the order of the fields. Its
strings have no character that JSON escapes, and its number has the digits of a word, so
that each reader takes just what the writer put there and leaves the mark behind it. Since
the configuration that is read is the one that was written, it has the same fault, if any.
Other texts may be read, too, and nothing is said of those.
-/

namespace FencedLedger

/-! ### Digits -/

namespace Decimal

/-- More digits spell no smaller number. -/
theorem le_ofDigitChars (significand : Nat) (digits : List Char) :
    significand ≤ Nat.ofDigitChars 10 digits significand := by
  induction digits generalizing significand with
  | nil => exact Nat.le_refl _
  | cons c digits ih =>
      rw [Nat.ofDigitChars_cons]
      exact Nat.le_trans (by omega) (ih _)

/-- A number above zero has no leading zero. -/
theorem exists_cons_toDigits {n : Nat} (hn : 0 < n) :
    ∃ c digits, Nat.toDigits 10 n = c :: digits ∧ c ≠ '0' := by
  induction n using Nat.strongRecOn with
  | ind n ih =>
      by_cases hone : n < 10
      · refine ⟨n.digitChar, [], Nat.toDigits_of_lt_base hone, ?_⟩
        rw [Ne, Nat.digitChar_eq_zero]
        omega
      · obtain ⟨c, digits, htenth, hc⟩ := ih (n / 10) (by omega) (by omega)
        refine ⟨c, digits ++ [(n % 10).digitChar], ?_, hc⟩
        rw [Nat.toDigits_of_base_le (by decide) (Nat.le_of_not_lt hone), htenth, List.cons_append]

end Decimal

/-! ### Strings -/

namespace Json

/-- A character that stands for itself in a string. -/
def Plain (c : Char) : Prop := c ≠ '"' ∧ c ≠ '\\' ∧ ¬ c.toNat < 0x20

instance (c : Char) : Decidable (Plain c) := inferInstanceAs (Decidable (_ ∧ _ ∧ _))

/-- A text whose characters all stand for themselves. -/
def PlainText (text : List Char) : Prop := ∀ c ∈ text, Plain c

instance (text : List Char) : Decidable (PlainText text) := List.decidableBAll Plain text

/-- From the digits on, only the backslash is escaped. -/
theorem plain_of_le {c : Char} (hlow : 48 ≤ c.toNat) (h : c.toNat ≠ 92) : Plain c := by
  refine ⟨?_, ?_, by omega⟩
  · rintro rfl
    exact absurd hlow (by decide)
  · rintro rfl
    exact h rfl

theorem plain_of_isDigit {c : Char} (h : c.isDigit = true) : Plain c := by
  unfold Char.isDigit at h
  rw [Bool.and_eq_true, decide_eq_true_iff, decide_eq_true_iff] at h
  have hlow : 48 ≤ c.toNat := h.1
  have hhigh : c.toNat ≤ 57 := h.2
  exact plain_of_le hlow (by omega)

theorem plain_of_isLowerCase {c : Char} (h : IsLowerCase c) : Plain c := by
  obtain ⟨hlow, hhigh⟩ := h
  exact plain_of_le (by omega) (by omega)

/-- A string without anything to escape ends at its closing quote. -/
theorem stringBody_of_plain {text : List Char} (h : PlainText text) (rest : List Char) :
    stringBody (text ++ '"' :: rest) = .ok (text, rest) := by
  induction text with
  | nil => rfl
  | cons c text ih =>
      obtain ⟨hquote, hescape, hcontrol⟩ := h c List.mem_cons_self
      have hrest := ih fun c' hc' => h c' (List.mem_cons_of_mem _ hc')
      rw [List.cons_append, stringBody, if_neg hcontrol, hrest]
      · rfl
      · exact hquote
      · exact fun _ _ _ _ _ heq _ => hescape heq
      · exact fun _ _ heq _ => hescape heq

/-- A string of plain characters is read as it stands. -/
theorem readString_of_plain {text : String} (h : PlainText text.toList) (rest : List Char) :
    readString ('"' :: text.toList ++ '"' :: rest) = .ok (text, rest) := by
  change (stringBody (text.toList ++ '"' :: rest)).bind
    (fun read => Except.ok (String.ofList read.1, read.2)) = _
  rw [stringBody_of_plain h]
  change Except.ok (String.ofList text.toList, rest) = _
  rw [String.ofList_toList]

/-! ### Numbers -/

namespace Number

/-- Digits of a word are all taken. -/
theorem absorb_digits {digits : List Char} (hdigits : ∀ c ∈ digits, c.isDigit = true)
    {stop : Char} (hstop : Decimal.digit? stop = none) (rest : List Char) (significand count : Nat)
    (hfits : Nat.ofDigitChars 10 digits significand < UInt64.size) :
    absorb significand count (digits ++ stop :: rest) =
      (Nat.ofDigitChars 10 digits significand, count + digits.length, stop :: rest) := by
  induction digits generalizing significand count with
  | nil => simp [absorb, hstop]
  | cons c digits ih =>
      have hc := Decimal.digit?_of_isDigit (hdigits c List.mem_cons_self)
      rw [Nat.ofDigitChars_cons, show '0'.toNat = 48 from rfl] at hfits ⊢
      have hhead : 10 * significand + (c.toNat - 48) < UInt64.size :=
        Nat.lt_of_le_of_lt (Decimal.le_ofDigitChars _ digits) hfits
      simp only [List.cons_append, absorb, hc, if_pos hhead]
      rw [ih (fun c' hc' => hdigits c' (List.mem_cons_of_mem _ hc')) _ _ hfits, List.length_cons,
        Nat.add_right_comm, Nat.add_assoc]

/-- A number is read up to the mark behind it. -/
theorem read?_toDigits {n : Nat} (hn : n < UInt64.size) (rest : List Char) :
    read? false (Nat.toDigits 10 n ++ ',' :: rest) = some (.integer n, ',' :: rest) := by
  have hstop : Decimal.digit? ',' = none := by decide
  obtain rfl | hpos := Nat.eq_zero_or_pos n
  · rfl
  · obtain ⟨c, digits, hdigits, hc⟩ := Decimal.exists_cons_toDigits hpos
    have hall : ∀ c' ∈ c :: digits, c'.isDigit = true := fun c' hc' =>
      Nat.isDigit_of_mem_toDigits (by decide) (by decide) (hdigits ▸ hc')
    have hvalue : Nat.ofDigitChars 10 digits (c.toNat - 48) = n := by
      have hn := Nat.ofDigitChars_ten_toDigits (n := n)
      rwa [hdigits, Nat.ofDigitChars_cons, Nat.mul_zero, Nat.zero_add] at hn
    have htaken := absorb_digits (fun c' hc' => hall c' (List.mem_cons_of_mem _ hc')) hstop rest
      (c.toNat - 48) 0 (hvalue.symm ▸ hn)
    rw [hdigits, List.cons_append, read?,
      Decimal.digit?_of_isDigit (hall c List.mem_cons_self)]
    · dsimp only
      rw [htaken, hvalue]
      rfl
    · exact fun heq => hc heq

end Number

theorem dropBlanks_cons {c : Char} (h : isBlank c = false) (rest : List Char) :
    dropBlanks (c :: rest) = c :: rest := by
  unfold dropBlanks
  rw [List.dropWhile_cons, h]
  rfl

theorem not_isBlank_of_isDigit {c : Char} (h : c.isDigit = true) : isBlank c = false := by
  rw [Bool.eq_false_iff]
  intro hblank
  unfold isBlank at hblank
  simp only [Bool.or_eq_true, beq_iff_eq] at hblank
  obtain ((rfl | rfl) | rfl) | rfl := hblank <;> revert h <;> decide

/-- A number that fits into a word is read as a count. -/
theorem readCount_toDigits {n : Nat} (hn : n < UInt64.size) (rest : List Char) :
    readCount (Nat.toDigits 10 n ++ ',' :: rest) = .ok (n, ',' :: rest) := by
  have hread := Number.read?_toDigits hn rest
  have hrange : (0 : Int) ≤ n ∧ (n : Int) ≤ UInt64.size - 1 := by
    have hn' : (n : Int) < UInt64.size := Int.ofNat_lt.mpr hn
    omega
  have hinteger : readInteger "usize" 0 (UInt64.size - 1) (Nat.toDigits 10 n ++ ',' :: rest) =
      .ok (n, ',' :: rest) := by
    cases hdigits : Nat.toDigits 10 n with
    | nil => exact absurd hdigits Nat.toDigits_ne_nil
    | cons c digits =>
        have hc : c.isDigit = true := Nat.isDigit_of_mem_toDigits (by decide) (by decide)
          (hdigits ▸ List.mem_cons_self)
        rw [hdigits] at hread
        unfold readInteger
        rw [List.cons_append, dropBlanks_cons (not_isBlank_of_isDigit hc)]
        split
        -- a digit is no sign
        next heq =>
          obtain rfl : c = '-' := (List.cons.inj heq).1
          exact absurd hc (by decide)
        next c' text heq =>
          obtain ⟨rfl, rfl⟩ := List.cons.inj heq
          rw [Decimal.digit?_of_isDigit hc]
          rw [List.cons_append] at hread
          simp only [hread, Option.isSome_some, if_true, if_pos hrange]
        next heq => cases heq
  unfold readCount
  rw [hinteger]
  rfl

/-! ### Members -/

/-- A member is handed to its reader by name. Before a further one there is a comma. -/
theorem readMembers_member {σ : Type}
    {member : σ → String → List Char → Except ReadError (σ × List Char)} {acc acc' : σ}
    {name : String} (hname : PlainText name.toList) {text rest : List Char}
    (hmember : member acc name text = .ok (acc', rest)) (fuel : Nat) (first : Bool) :
    readMembers member (fuel + 1) first acc
        ((if first then [] else [',']) ++ '"' :: (name.toList ++ '"' :: text)) =
      readMembers member fuel false acc' rest := by
  have hstep : readMembers member (fuel + 1) first acc
      ((if first then [] else [',']) ++ '"' :: (name.toList ++ '"' :: text)) =
        (stringBody (name.toList ++ '"' :: text)).bind fun name =>
          (member acc (String.ofList name.1) name.2).bind fun value =>
            readMembers member fuel false value.1 value.2 := by cases first <;> rfl
  rw [hstep, stringBody_of_plain hname]
  change (member acc (String.ofList name.toList) text).bind _ = _
  rw [String.ofList_toList, hmember]
  rfl

end Json

namespace Duration

/-- A character of texts that are joined is one of a text or the blank between two. -/
theorem eq_blank_or_mem_of_mem_intercalate {c : Char} {texts : List (List Char)}
    (h : c ∈ [' '].intercalate texts) : c = ' ' ∨ ∃ text ∈ texts, c ∈ text := by
  induction texts with
  | nil => cases h
  | cons text texts ih =>
      cases texts with
      | nil =>
          rw [List.intercalate_singleton] at h
          exact .inr ⟨text, List.mem_cons_self, h⟩
      | cons next texts =>
          rw [List.intercalate_cons_cons, List.append_assoc, List.mem_append,
            List.singleton_append, List.mem_cons] at h
          obtain htext | hblank | hrest := h
          · exact .inr ⟨text, List.mem_cons_self, htext⟩
          · exact .inl hblank
          · refine (ih hrest).imp_right fun ⟨text', hmem, hc⟩ => ?_
            exact ⟨text', List.mem_cons_of_mem _ hmem, hc⟩

/-- A duration is written without a character that JSON escapes. -/
theorem plain_written (d : Duration) : Json.PlainText d.written.toList := by
  unfold written
  split
  next => decide
  next =>
    intro c hc
    rw [String.toList_intercalate, List.map_map] at hc
    obtain rfl | ⟨text, htext, hc⟩ := eq_blank_or_mem_of_mem_intercalate hc
    · decide
    · obtain ⟨amount, hamount, rfl⟩ := List.mem_map.mp htext
      obtain ⟨unit, hunit⟩ := d.spelled_amounts amount hamount
      change c ∈ (toString amount.1 ++ amount.2).toList at hc
      rw [String.toList_append, List.mem_append, Nat.toString_eq_repr, Nat.toList_repr] at hc
      obtain hdigit | hletter := hc
      · exact Json.plain_of_isDigit (Nat.isDigit_of_mem_toDigits (by decide) (by decide) hdigit)
      · exact Json.plain_of_isLowerCase (hunit.named.2.2 c hletter)

end Duration

namespace Config

/-! ### Fields -/

/-- The time to live is read as a duration. -/
theorem readMember_ttl {fields : Fields} (h : fields.ttl = none) (ttl : Duration)
    (rest : List Char) :
    readMember fields "recently_deleted_ttl"
        (':' :: '"' :: (ttl.written.toList ++ '"' :: rest)) =
      .ok ({ fields with ttl := some ttl }, rest) := by
  have hstring := Json.readString_of_plain ttl.plain_written rest
  unfold readMember
  rw [if_pos rfl, h]
  change readTtl fields ('"' :: ttl.written.toList ++ '"' :: rest) = _
  unfold readTtl
  rw [hstring]
  dsimp only [bind, Except.bind]
  rw [Duration.read_written]

/-- The capacity is read as a count. -/
theorem readMember_capacity {fields : Fields} (h : fields.capacity = none) {capacity : Nat}
    (hcapacity : capacity < UInt64.size) (rest : List Char) :
    readMember fields "recently_deleted_capacity"
        (':' :: (Nat.toDigits 10 capacity ++ ',' :: rest)) =
      .ok ({ fields with capacity := some capacity }, ',' :: rest) := by
  unfold readMember
  rw [if_neg (by decide), if_pos rfl, h]
  change readCapacity fields (Nat.toDigits 10 capacity ++ ',' :: rest) = _
  unfold readCapacity
  rw [Json.readCount_toDigits hcapacity]
  rfl

theorem readMember_ack {fields : Fields} (h : fields.ackBeforeSync = none) (ack : Bool)
    (rest : List Char) :
    readMember fields "fence_ack_before_sync"
        (':' :: ((if ack then "true" else "false").toList ++ rest)) =
      .ok ({ fields with ackBeforeSync := some ack }, rest) := by
  unfold readMember
  rw [if_neg (by decide), if_neg (by decide), if_pos rfl, h]
  cases ack <;> rfl

/-! ### The whole text -/

theorem toList_toJson (c : Config) :
    c.toJson.toList =
      '\x7b' :: '"' :: ("recently_deleted_ttl".toList ++ '"' :: ':' :: '"' ::
        (c.ttl.written.toList ++ '"' :: ',' :: '"' ::
          ("recently_deleted_capacity".toList ++ '"' :: ':' ::
            (Nat.toDigits 10 c.capacity ++ ',' :: '"' ::
              ("fence_ack_before_sync".toList ++ '"' :: ':' ::
                ((if c.ackBeforeSync then "true" else "false").toList ++ ['\x7d'])))))) := by
  unfold toJson
  simp only [String.toList_append, Nat.toString_eq_repr, Nat.toList_repr, List.append_assoc]
  rfl

/-- The three members are read one after the other, in the order in which they were written. -/
theorem ofJson_toJson {c : Config} (hcapacity : c.capacity < UInt64.size) :
    ofJson c.toJson.toList = .ok c := by
  rw [toList_toJson]
  generalize hmembers : '"' :: ("recently_deleted_ttl".toList ++ _) = members
  have hread (fuel : Nat) : Json.readMembers readMember (fuel + 4) true .none members =
      .ok (⟨some c.ttl, some c.capacity, some c.ackBeforeSync⟩, []) := by
    subst hmembers
    refine (Json.readMembers_member (by decide) (readMember_ttl rfl c.ttl _) _ true).trans ?_
    refine (Json.readMembers_member (by decide)
      (readMember_capacity rfl hcapacity _) _ false).trans ?_
    refine (Json.readMembers_member (by decide)
      (readMember_ack rfl c.ackBeforeSync _) _ false).trans ?_
    rfl
  obtain ⟨fuel, hfuel⟩ : ∃ fuel, members.length + 1 = fuel + 4 := by
    have hlength : 3 ≤ members.length := by
      subst hmembers
      simp
    exact ⟨members.length - 3, by omega⟩
  have hfields : readFields ('\x7b' :: members) =
      .ok (⟨some c.ttl, some c.capacity, some c.ackBeforeSync⟩, []) := by
    change Json.readMembers readMember (members.length + 1) true .none members = _
    rw [hfuel, hread]
  unfold ofJson Json.readDocument
  rw [hfields]
  rfl

/-- Whatever the settings are, with a capacity that fits a word, the text that is written for
them is read as the same settings, which have the same fault or are as valid as they were.
The duration in it is read as the same seconds and nanoseconds. -/
theorem survives_text (ttl : Duration) (capacity : UInt64) (ackBeforeSync : Bool) :
    let c : Config := ⟨ttl, capacity.toNat, ackBeforeSync⟩
    Duration.read ttl.written.toList = .ok ttl ∧
      ∃ c', ofJson c.toJson.toList = .ok c' ∧ c' = c ∧ c'.validated = c.validated :=
  ⟨ttl.read_written, _, ofJson_toJson capacity.toNat_lt, rfl, rfl⟩

end Config

end FencedLedger
