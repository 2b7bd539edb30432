import FencedLedger.Duration.Written
import Mathlib.Tactic.Ring

/-!
# Durations that are written are read

A written duration is a list of amounts with the names of their units, parted by single
blanks. The scan takes the digits of an amount one by one, and what it has read of the
amount is the number that the digits so far spell, so that no amount of a duration
overflows the word that it is read into. A name is looked up at the blank behind it. The
amounts then add up to the nanoseconds that the duration has, and never to more on the way.
The reader takes more names than are ever written, and fractions; the results keep to
written texts.
-/

namespace FencedLedger

/-! ### Characters -/

namespace Decimal

theorem digit?_of_isDigit {c : Char} (h : c.isDigit = true) : digit? c = some (c.toNat - 48) := by
  unfold Char.isDigit at h
  rw [Bool.and_eq_true, decide_eq_true_iff, decide_eq_true_iff] at h
  exact if_pos h

theorem digit?_digitChar {n : Nat} (h : n < 10) : digit? n.digitChar = some n := by
  have hdigit : n.digitChar.isDigit = true := by rw [Nat.isDigit_digitChar, decide_eq_true h]
  rw [digit?_of_isDigit hdigit, Nat.toNat_digitChar_sub_48_of_lt_ten h]

end Decimal

/-- The letters that names of units are written in. -/
def IsLowerCase (c : Char) : Prop := 97 ≤ c.toNat ∧ c.toNat ≤ 122

instance (c : Char) : Decidable (IsLowerCase c) := inferInstanceAs (Decidable (_ ∧ _))

namespace IsLowerCase

variable {c : Char}

theorem digit?_eq_none (h : IsLowerCase c) : Decimal.digit? c = none := by
  refine if_neg fun hdigit => ?_
  have hle : c.toNat ≤ 57 := hdigit.2
  have hlow := h.1
  omega

theorem isBlank_eq_false (h : IsLowerCase c) : Duration.isBlank c = false := by
  obtain ⟨hlow, hhigh⟩ := h
  unfold Duration.isBlank
  simp
  omega

theorem isUnitLetter (h : IsLowerCase c) : Duration.isUnitLetter c = true := by
  have hlow : 'a' ≤ c := h.1
  have hhigh : c ≤ 'z' := h.2
  simp [Duration.isUnitLetter, hlow, hhigh]

end IsLowerCase

/-! ### Sums of amounts -/

namespace TimeUnit

/-- The nanoseconds that a scale counts. -/
def Scale.nanosEach : Scale → Nat
  | .seconds perUnit => perUnit * nanosPerSecond
  | .nanos perUnit => perUnit

/-- So many of a unit are less than a second, when the unit is. -/
def Scale.BelowSecond (n : Nat) : Scale → Prop
  | .seconds _ => True
  | .nanos perUnit => n * perUnit < nanosPerSecond

/-- A name of a unit that is written in small letters. -/
def Named (unit : TimeUnit) (name : String) : Prop :=
  ofName? name = some unit ∧ name.toList ≠ [] ∧ ∀ c ∈ name.toList, IsLowerCase c

-- The letters of the name are looked at, and not all characters that there are.
instance (unit : TimeUnit) (name : String) : Decidable (unit.Named name) :=
  letI := List.decidableBAll IsLowerCase name.toList
  inferInstanceAs (Decidable (_ ∧ _ ∧ _))

end TimeUnit

namespace Duration

theorem eq_of_totalNanos_eq {d e : Duration} (h : d.totalNanos = e.totalNanos) : d = e := by
  have hd := d.nanos_lt
  have he := e.nanos_lt
  unfold totalNanos nanosPerSecond at h
  exact Duration.ext (by omega) (by omega)

theorem totalNanos_lt (d : Duration) : d.totalNanos < UInt64.size * nanosPerSecond := by
  have hs := d.seconds_lt
  have hn := d.nanos_lt
  unfold totalNanos nanosPerSecond
  omega

theorem word_of_lt {n : Nat} (h : n < UInt64.size) : word n = .ok n := if_pos h

/-- Seconds and nanoseconds that fit into a duration are one. -/
theorem ofParts?_of_lt {seconds nanos : Nat}
    (h : seconds * nanosPerSecond + nanos < UInt64.size * nanosPerSecond) :
    ∃ d, ofParts? seconds nanos = some d ∧ d.totalNanos = seconds * nanosPerSecond + nanos := by
  unfold nanosPerSecond at h
  have hseconds : seconds + nanos / 1000000000 < UInt64.size := by omega
  refine ⟨⟨_, _, hseconds, Nat.mod_lt _ (by decide)⟩, dif_pos hseconds, ?_⟩
  unfold totalNanos nanosPerSecond
  dsimp only
  omega

/-- A sum that a duration can have is found. -/
theorem plus_of_lt {d : Duration} (seconds : Nat) {nanos : Nat} (hnanos : nanos < nanosPerSecond)
    (hfits : d.totalNanos + (seconds * nanosPerSecond + nanos) <
      UInt64.size * nanosPerSecond) :
    ∃ sum, d.plus seconds nanos = .ok sum ∧
      sum.totalNanos = d.totalNanos + (seconds * nanosPerSecond + nanos) := by
  have hd := d.nanos_lt
  have hword : d.nanos + nanos < UInt64.size := by
    unfold nanosPerSecond at hnanos
    unfold UInt64.size
    omega
  have hparts : (d.seconds + seconds) * nanosPerSecond + (d.nanos + nanos) =
      d.totalNanos + (seconds * nanosPerSecond + nanos) := by
    unfold totalNanos
    ring
  rw [← hparts] at hfits ⊢
  obtain ⟨sum, hsum, htotal⟩ := ofParts?_of_lt hfits
  refine ⟨sum, ?_, htotal⟩
  unfold plus
  rw [word_of_lt hword]
  dsimp only [bind, Except.bind]
  rw [hsum]

theorem quotient_one (n : Nat) : quotient n 1 = .ok n := by
  simp [quotient, Nat.mod_one]

/-- An amount of less than a second's worth goes to the nanoseconds, and may carry. -/
theorem plusScaled_of_lt {d : Duration} {scale : TimeUnit.Scale} {n : Nat}
    (hbelow : scale.BelowSecond n)
    (hfits : d.totalNanos + n * scale.nanosEach < UInt64.size * nanosPerSecond) :
    ∃ sum, d.plusScaled scale n 1 = .ok sum ∧
      sum.totalNanos = d.totalNanos + n * scale.nanosEach := by
  cases scale with
  | seconds perUnit =>
      have heach : n * (perUnit * nanosPerSecond) = n * perUnit * nanosPerSecond + 0 := by ring
      rw [TimeUnit.Scale.nanosEach, heach] at hfits ⊢
      have hproduct : n * perUnit < UInt64.size := by
        have hle : n * perUnit * nanosPerSecond < UInt64.size * nanosPerSecond := by omega
        exact Nat.lt_of_mul_lt_mul_right hle
      obtain ⟨sum, hsum, htotal⟩ := plus_of_lt (n * perUnit) (by decide) hfits
      refine ⟨sum, ?_, htotal⟩
      simp only [plusScaled, word_of_lt hproduct, quotient_one]
      exact hsum
  | nanos perUnit =>
      have heach : n * perUnit = 0 * nanosPerSecond + n * perUnit := by ring
      rw [TimeUnit.Scale.nanosEach, heach] at hfits ⊢
      have hproduct : n * perUnit < UInt64.size := by
        have hbelow' : n * perUnit < nanosPerSecond := hbelow
        unfold nanosPerSecond at hbelow'
        unfold UInt64.size
        omega
      obtain ⟨sum, hsum, htotal⟩ := plus_of_lt 0 hbelow hfits
      refine ⟨sum, ?_, htotal⟩
      simp only [plusScaled, word_of_lt hproduct, quotient_one]
      exact hsum

/-! ### Amounts -/

/-- An amount as durations are written with: it fits a word, and is less than a second where
its unit is. -/
structure Spelled (amount : Nat × String) (unit : TimeUnit) : Prop where
  named : unit.Named amount.2
  fits : amount.1 < UInt64.size
  belowSecond : unit.whole.BelowSecond amount.1

/-- The nanoseconds that an amount stands for. -/
def worth (amount : Nat × String) : Nat :=
  match TimeUnit.ofName? amount.2 with
  | some unit => amount.1 * unit.whole.nanosEach
  | none => 0

variable {amount : Nat × String} {unit : TimeUnit}

theorem worth_of_named (h : unit.Named amount.2) :
    worth amount = amount.1 * unit.whole.nanosEach := by
  unfold worth
  rw [h.1]

/-- An amount is added when a duration can have the sum. -/
theorem Spelled.plusAmount (h : Spelled amount unit) {d : Duration}
    (hfits : d.totalNanos + worth amount < UInt64.size * nanosPerSecond) :
    ∃ sum, d.plusAmount amount.1 none amount.2 = .ok sum ∧
      sum.totalNanos = d.totalNanos + worth amount := by
  rw [worth_of_named h.named] at hfits ⊢
  obtain ⟨sum, hsum, htotal⟩ := plusScaled_of_lt h.belowSecond hfits
  refine ⟨sum, ?_, htotal⟩
  simp only [Duration.plusAmount, h.named.1, hsum]
  rfl

/-- Add amounts, one after the other. -/
def plusAll (d : Duration) (amounts : List (Nat × String)) : Except ReadError Duration :=
  amounts.foldlM (fun sum amount => sum.plusAmount amount.1 none amount.2) d

/-- If all amounts fit, so does every sum on the way. -/
theorem plusAll_of_spelled {amounts : List (Nat × String)}
    (hspelled : ∀ amount ∈ amounts, ∃ unit, Spelled amount unit) (d : Duration)
    (hfits : d.totalNanos + (amounts.map worth).sum < UInt64.size * nanosPerSecond) :
    ∃ sum, d.plusAll amounts = .ok sum ∧
      sum.totalNanos = d.totalNanos + (amounts.map worth).sum := by
  induction amounts generalizing d with
  | nil => exact ⟨d, rfl, (Nat.add_zero _).symm⟩
  | cons amount amounts ih =>
      obtain ⟨unit, hunit⟩ := hspelled amount List.mem_cons_self
      rw [List.map_cons, List.sum_cons, ← Nat.add_assoc] at hfits ⊢
      have hfirst : d.totalNanos + worth amount < UInt64.size * nanosPerSecond := by omega
      obtain ⟨sum, hsum, htotal⟩ := hunit.plusAmount hfirst
      rw [← htotal] at hfits ⊢
      obtain ⟨all, hall, hsums⟩ :=
        ih (fun a ha => hspelled a (List.mem_cons_of_mem _ ha)) sum hfits
      refine ⟨all, ?_, hsums⟩
      rw [plusAll, List.foldlM_cons, hsum]
      exact hall

/-! ### The amounts of a duration -/

/-- Amounts of zero are not written and not missed. -/
theorem sum_worth_filter (amounts : List (Nat × String)) :
    ((amounts.filter fun a => a.1 ≠ 0).map worth).sum = (amounts.map worth).sum := by
  induction amounts with
  | nil => rfl
  | cons amount amounts ih =>
      rw [List.filter_cons]
      split
      next => rw [List.map_cons, List.map_cons, List.sum_cons, List.sum_cons, ih]
      next hzero =>
        have hamount : amount.1 = 0 := by simpa using hzero
        have hworth : worth amount = 0 := by
          unfold worth
          split
          next => rw [hamount, Nat.zero_mul]
          next => rfl
        rw [List.map_cons, List.sum_cons, hworth, Nat.zero_add, ih]

/-- The name that is written for a number of a unit is one of its names. -/
theorem named_plural {name : String} (hone : unit.Named name) (hmore : unit.Named (name ++ "s"))
    (n : Nat) : unit.Named (if n = 1 then name else name ++ "s") := by
  split
  next => exact hone
  next => exact hmore

/-- Every amount of a duration is written with a name that the reader knows. -/
theorem spelled_amounts (d : Duration) : ∀ amount ∈ d.amounts, ∃ unit, Spelled amount unit := by
  have spelled {n : Nat} {name : String} (unit : TimeUnit) (hnamed : unit.Named name)
      (hfits : n < UInt64.size) (hbelow : unit.whole.BelowSecond n) :
      ∃ unit, Spelled (n, name) unit := ⟨unit, hnamed, hfits, hbelow⟩
  have hseconds := d.seconds_lt
  have hnanos := d.nanos_lt
  have hword : 1000000000 < UInt64.size := by decide
  intro amount hmem
  replace hmem := (List.mem_filter.mp hmem).1
  simp only [List.mem_cons, List.not_mem_nil, or_false] at hmem
  rcases hmem with rfl | rfl | rfl | rfl | rfl | rfl | rfl | rfl | rfl
  · exact spelled .year (named_plural (by decide) (by decide) _) (by omega) trivial
  · exact spelled .month (named_plural (by decide) (by decide) _) (by omega) trivial
  · exact spelled .day (named_plural (by decide) (by decide) _) (by omega) trivial
  · exact spelled .hour (by decide) (by omega) trivial
  · exact spelled .minute (by decide) (by omega) trivial
  · exact spelled .second (by decide) (by omega) trivial
  · exact spelled .millisecond (by decide) (by omega) (show _ * 1000000 < 1000000000 by omega)
  · exact spelled .microsecond (by decide) (by omega) (show _ * 1000 < 1000000000 by omega)
  · exact spelled .nanosecond (by decide) (by omega) (show _ * 1 < 1000000000 by omega)

/-- The amounts of a duration make up the duration. -/
theorem sum_worth_amounts (d : Duration) : (d.amounts.map worth).sum = d.totalNanos := by
  have worth_eq (unit : TimeUnit) (name : String) (h : unit.Named name) (n : Nat) :
      worth (n, name) = n * unit.whole.nanosEach := worth_of_named h
  have worth_plural (unit : TimeUnit) (name : String) (hone : unit.Named name)
      (hmore : unit.Named (name ++ "s")) (n : Nat) :
      worth (n, if n = 1 then name else name ++ "s") = n * unit.whole.nanosEach :=
    worth_of_named (named_plural hone hmore n)
  unfold amounts
  rw [sum_worth_filter]
  iterate 9 rw [List.map_cons, List.sum_cons]
  rw [List.map_nil, List.sum_nil, worth_plural .year "year" (by decide) (by decide),
    worth_plural .month "month" (by decide) (by decide),
    worth_plural .day "day" (by decide) (by decide), worth_eq .hour "h" (by decide),
    worth_eq .minute "m" (by decide), worth_eq .second "s" (by decide),
    worth_eq .millisecond "ms" (by decide), worth_eq .microsecond "us" (by decide),
    worth_eq .nanosecond "ns" (by decide)]
  simp only [TimeUnit.whole, TimeUnit.Scale.nanosEach, totalNanos]
  -- every unit is taken of what the longer ones leave
  have hseconds : d.seconds = d.seconds / 31557600 * 31557600 +
      (d.seconds % 31557600 / 2630016 * 2630016 +
      (d.seconds % 31557600 % 2630016 / 86400 * 86400 +
      (d.seconds % 31557600 % 2630016 % 86400 / 3600 * 3600 +
      (d.seconds % 31557600 % 2630016 % 86400 % 3600 / 60 * 60 +
      d.seconds % 31557600 % 2630016 % 86400 % 60)))) := by omega
  have hnanos : d.nanos = d.nanos / 1000000 * 1000000 +
      (d.nanos / 1000 % 1000 * 1000 + d.nanos % 1000) := by omega
  conv_rhs => rw [hseconds, hnanos]
  ring

/-! ### Scanning -/

namespace Scan

/-- Nothing has been read of an amount. -/
def Fresh (s : Scan) : Prop := s.phase = .opening ∨ ∃ since, s.phase = .gap since

variable {s : Scan}

theorem Fresh.step_digit (h : s.Fresh) {c : Char} {d : Nat} (hd : Decimal.digit? c = some d) :
    s.step c = .ok ⟨s.total, s.offset + c.utf8Size, .amount d⟩ := by
  obtain hphase | ⟨since, hphase⟩ := h <;> simp only [step, hphase, hd]

/-- What has been read of an amount after its digits is the number that they spell. -/
theorem Fresh.foldlM_digits (h : s.Fresh) {n : Nat} (hn : n < UInt64.size) :
    ∃ offset, (Nat.toDigits 10 n).foldlM step s = .ok ⟨s.total, offset, .amount n⟩ := by
  induction n using Nat.strongRecOn with
  | ind n ih =>
      by_cases hone : n < 10
      · rw [Nat.toDigits_of_lt_base hone, List.foldlM_cons,
          h.step_digit (Decimal.digit?_digitChar hone)]
        exact ⟨_, rfl⟩
      · -- the last digit comes after those of a tenth of the number
        obtain ⟨offset, htenth⟩ := ih (n / 10) (by omega) (by omega)
        have hlast := Decimal.digit?_digitChar (Nat.mod_lt n (by decide : 0 < 10))
        have hword : word (10 * (n / 10) + n % 10) = .ok n := by
          rw [Nat.div_add_mod]
          exact word_of_lt hn
        rw [Nat.toDigits_of_base_le (by decide) (Nat.le_of_not_lt hone), List.foldlM_append, htenth]
        refine ⟨offset + (n % 10).digitChar.utf8Size, ?_⟩
        change List.foldlM step _ [_] = _
        rw [List.foldlM_cons]
        simp only [step, hlast, hword]
        rfl

/-- The letters of a name are gathered one by one. -/
theorem foldlM_letters (total : Duration) (offset n : Nat) (name : List Char)
    {more : List Char} (hmore : ∀ c ∈ more, IsLowerCase c) :
    ∃ offset', more.foldlM step ⟨total, offset, .unit n none name⟩ =
      .ok ⟨total, offset', .unit n none (name ++ more)⟩ := by
  induction more generalizing offset name with
  | nil => exact ⟨offset, by rw [List.append_nil]; rfl⟩
  | cons c more ih =>
      have hc := hmore c List.mem_cons_self
      obtain ⟨offset', hrest⟩ := ih (offset + c.utf8Size) (name ++ [c])
        fun c' hc' => hmore c' (List.mem_cons_of_mem _ hc')
      refine ⟨offset', ?_⟩
      rw [List.append_assoc] at hrest
      simp only [List.foldlM_cons, step, hc.digit?_eq_none, hc.isBlank_eq_false, hc.isUnitLetter]
      exact hrest

/-- Behind an amount its unit is not looked up yet. -/
theorem Fresh.foldlM_amount (h : s.Fresh) {amount : Nat × String} {unit : TimeUnit}
    (hspelled : Spelled amount unit) :
    ∃ offset, (toString amount.1 ++ amount.2).toList.foldlM step s =
      .ok ⟨s.total, offset, .unit amount.1 none amount.2.toList⟩ := by
  obtain ⟨offset, hdigits⟩ := h.foldlM_digits hspelled.fits
  obtain ⟨-, hnonempty, hletters⟩ := hspelled.named
  rw [String.toList_append, Nat.toString_eq_repr, Nat.toList_repr, List.foldlM_append, hdigits]
  change ∃ offset', List.foldlM step _ _ = _
  cases hname : amount.2.toList with
  | nil => exact absurd hname hnonempty
  | cons c more =>
      rw [hname] at hletters
      have hc := hletters c List.mem_cons_self
      obtain ⟨offset', hmore⟩ := foldlM_letters s.total (offset + c.utf8Size) amount.1 [c]
        fun c' hc' => hletters c' (List.mem_cons_of_mem _ hc')
      refine ⟨offset', ?_⟩
      simp only [List.foldlM_cons, step, hc.digit?_eq_none, hc.isBlank_eq_false, hc.isUnitLetter]
      exact hmore

/-- At a blank the unit of an amount is looked up and the amount is added. -/
theorem step_blank (total : Duration) (offset n : Nat) (name : String) :
    step ⟨total, offset, .unit n none name.toList⟩ ' ' = do
      let sum ← total.plusAmount n none name
      return ⟨sum, offset + 1, .gap (offset + 1)⟩ := by
  simp only [step, String.ofList_toList]
  rfl

/-- Amounts that are parted by blanks are added one after the other. -/
theorem Fresh.foldlM_amounts (h : s.Fresh) {amounts : List (Nat × String)} (hne : amounts ≠ [])
    (hspelled : ∀ amount ∈ amounts, ∃ unit, Spelled amount unit) :
    (([' '].intercalate (amounts.map fun amount => (toString amount.1 ++ amount.2).toList)).foldlM
      step s).bind finish = s.total.plusAll amounts := by
  induction amounts generalizing s with
  | nil => exact absurd rfl hne
  | cons amount amounts ih =>
      obtain ⟨unit, hunit⟩ := hspelled amount List.mem_cons_self
      obtain ⟨offset, hamount⟩ := h.foldlM_amount hunit
      rw [plusAll, List.foldlM_cons]
      cases amounts with
      | nil =>
          simp only [List.map_singleton, List.intercalate_singleton, hamount, List.foldlM_nil,
            bind_pure]
          change s.total.plusAmount amount.1 none (String.ofList amount.2.toList) = _
          rw [String.ofList_toList]
      | cons next amounts =>
          rw [List.map_cons, List.map_cons, List.intercalate_cons_cons, List.append_assoc,
            List.foldlM_append, hamount]
          change ((List.foldlM step _ ([' '] ++ _) : Except ReadError Scan)).bind finish = _
          rw [List.foldlM_append, List.foldlM_cons, step_blank]
          cases s.total.plusAmount amount.1 none amount.2 with
          | error e => rfl
          | ok sum =>
              exact ih (s := ⟨sum, offset + 1, .gap (offset + 1)⟩) (.inr ⟨_, rfl⟩)
                (List.cons_ne_nil _ _) fun a ha => hspelled a (List.mem_cons_of_mem _ ha)

end Scan

/-! ### Reading what is written -/

theorem eq_zero_of_amounts_eq_nil {d : Duration} (h : d.amounts = []) : d = zero := by
  have hsum := sum_worth_amounts d
  rw [h] at hsum
  exact eq_of_totalNanos_eq hsum.symm

/-- The amounts of a duration add up to the duration. -/
theorem plusAll_amounts (d : Duration) : zero.plusAll d.amounts = .ok d := by
  have hfits : zero.totalNanos + (d.amounts.map worth).sum < UInt64.size * nanosPerSecond := by
    rw [sum_worth_amounts, show zero.totalNanos = 0 from rfl, Nat.zero_add]
    exact d.totalNanos_lt
  obtain ⟨sum, hsum, htotal⟩ := plusAll_of_spelled d.spelled_amounts zero hfits
  rw [sum_worth_amounts, show zero.totalNanos = 0 from rfl, Nat.zero_add] at htotal
  rw [hsum, eq_of_totalNanos_eq htotal]

/-- What is written for a duration is read as the duration. -/
theorem read_written (d : Duration) : read d.written.toList = .ok d := by
  unfold written
  split
  next hnil =>
    rw [eq_zero_of_amounts_eq_nil hnil]
    rfl
  next hne =>
    have hscan : (List.foldlM Scan.step Scan.start _).bind Scan.finish = zero.plusAll d.amounts :=
      Scan.Fresh.foldlM_amounts (.inl rfl) hne d.spelled_amounts
    rw [plusAll_amounts] at hscan
    rw [String.toList_intercalate, List.map_map]
    unfold read
    split
    next hzero =>
      -- a lone zero has no unit
      have hlone : (List.foldlM Scan.step Scan.start ['0']).bind Scan.finish =
          .error (.unitNeeded 0) := rfl
      exact nomatch (hzero ▸ hscan).symm.trans hlone
    next => exact hscan

end Duration

end FencedLedger
