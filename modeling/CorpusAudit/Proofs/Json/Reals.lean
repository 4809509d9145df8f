import CorpusAudit.Proofs.Decimal.Binary
import CorpusAudit.Proofs.Float.Overflow
import CorpusAudit.Proofs.Json.Numerals

/-!
# Floating-point numbers that are read back

The shortest decimal of a finite number is scaled without leaving the range, so a finite
number that is written is read as some number again.  Which one this is depends on the
rounding of the reader, and nothing is said about it.
-/

namespace CorpusAudit.Json

open Decimal (Binary Scaled)

/-! ### Scaling -/

/-- A number that is divided is always in range. -/
theorem scaleBy_of_neg (fuel : Nat) (x : Float) {e : Int} (h : e < 0) :
  (scaleBy fuel x e).isSome = true
  := by
  induction fuel generalizing x e with
  | zero => rfl
  | succ fuel ih =>
    rw [scaleBy]
    split
    · simp
    · next hfar =>
      split
      · rfl
      · rw [if_neg (by omega)]
        exact ih _ (by omega)

theorem decimalLimit_lt_power {k : Nat} (h : 309 ≤ k) :
  decimalLimit < 10 ^ k
  := by
  have hleast : ∀ n < 310, n < 309 ∨ decimalLimit < 10 ^ n := by decide +kernel
  obtain ⟨n, hn⟩ : ∃ n, n = 309 := ⟨309, rfl⟩
  apply Nat.lt_of_lt_of_le ((hleast n (by omega)).resolve_left (by omega))
  exact Nat.pow_le_pow_right (by decide) (by omega)

/-- A significand stays in range when it is divided, or when the product is below the middle
between the two largest numbers. -/
theorem scaleBy_ofNat {n : Nat} (hn : n < UInt64.size) {e : Int}
    (hlimit : 0 ≤ e → n * 10 ^ e.toNat ≤ decimalLimit) :
  (scaleBy 4 (Float.ofNat n) e).isSome = true
  := by
  rcases Int.lt_or_le e 0 with hneg | hpos
  · exact scaleBy_of_neg 4 _ hneg
  · obtain ⟨k, rfl⟩ := Int.eq_ofNat_of_zero_le hpos
    have hproduct : n * 10 ^ k ≤ decimalLimit := hlimit hpos
    rw [scaleBy]
    split
    · next hnear =>
      have hfinite := isFinite_ofNat_mul_power hn (by omega : k ≤ 308) hproduct
      simp only [Int.natAbs_natCast, if_neg (Int.not_lt.mpr hpos)]
      rw [((isFinite_iff _).mp hfinite).2]
      rfl
    · next hfar =>
      -- only zero may be multiplied by so large a power
      have hzero : n = 0 := by
        by_contra hne
        have hlarge := decimalLimit_lt_power (by omega : 309 ≤ k)
        have hpower : 10 ^ k ≤ n * 10 ^ k := Nat.le_mul_of_pos_left _ (Nat.pos_of_ne_zero hne)
        omega
      have hnothing : (Float.ofNat 0 == 0) = true := by decide +kernel
      rw [hzero, if_pos hnothing]
      rfl

/-! ### Numerals -/

namespace Numeral

/-- The power of ten that is written behind a numeral. -/
def power (n : Numeral) : Int :=
  match n.exponent with
  | none => 0
  | some (negative, ds) => if negative then -Decimal.valueOf 10 ds else Decimal.valueOf 10 ds

/-- A numeral with a point or an exponent denotes a floating-point number, if it denotes a
number at all. -/
theorem exists_float_of_isSome {n : Numeral} (hform : n.hasPoint = true ∨ n.exponent.isSome = true)
    (h : n.value?.isSome = true) :
  ∃ x, n.value? = some (.float x)
  := by
  have hcondition (more : Bool) : (!n.hasPoint && n.exponent.isNone && more) = false := by
    rcases hform with h | h
    · simp [h]
    · simp [Option.isNone_eq_false_iff.mpr h]
  obtain ⟨v, hv⟩ := Option.isSome_iff_exists.mp h
  have hvalue := hv
  rw [value?] at hvalue
  simp only [hcondition, Bool.false_eq_true, if_false] at hvalue
  split at hvalue
  · obtain ⟨x, -, rfl⟩ := Option.map_eq_some_iff.mp hvalue
    exact ⟨_, hv⟩
  · split at hvalue
    · obtain ⟨x, -, rfl⟩ := Option.map_eq_some_iff.mp hvalue
      exact ⟨_, hv⟩
    · split at hvalue
      · rw [← Option.some.inj hvalue] at hv
        exact ⟨_, hv⟩
      · simp at hvalue

/-- A numeral denotes a number if its significand can be scaled. -/
theorem isSome_value? {n : Numeral} {significand digits : Nat} {more dropped : List Char}
    (hwhole : absorb 0 n.whole = (significand, more))
    (hfraction : absorb significand n.fraction = (digits, dropped))
    (hpower : n.power < (UInt32.size / 2 : Nat))
    (hscale : (scaleBy 4 (Float.ofNat digits)
      (more.length - (n.fraction.length - dropped.length) + n.power)).isSome = true) :
  n.value?.isSome = true
  := by
  rw [value?, hwhole]
  simp only
  split
  · split
    · split
      · rfl
      · split <;> rfl
    · rfl
  · rw [hfraction]
    rw [power] at hscale hpower
    cases h : n.exponent with
    | none =>
      rw [h] at hscale
      simpa using hscale
    | some e =>
      obtain ⟨negative, ds⟩ := e
      rw [h] at hscale hpower
      simp only at hscale hpower ⊢
      cases negative with
      | true =>
        split
        · simpa [Int.sub_eq_add_neg] using hscale
        · simp
      | false =>
        have hsmall : Decimal.valueOf 10 ds < UInt32.size / 2 := Int.ofNat_lt.mp hpower
        rw [if_pos hsmall]
        simpa using hscale

/-- A numeral with few digits before its point and no exponent. -/
theorem isSome_value?_of_length {n : Numeral} (hexponent : n.exponent = none)
    (hwhole : n.whole.length < 62) :
  n.value?.isSome = true
  := by
  have hpower : n.power = 0 := by rw [power, hexponent]
  have hleft := absorb_lt (n := 0) (by decide) n.whole
  have hdigits := absorb_lt hleft n.fraction
  have hmore := length_absorb_le 0 n.whole
  have hdropped := length_absorb_le (absorb 0 n.whole).1 n.fraction
  apply isSome_value? rfl rfl
  · rw [hpower]
    decide
  · apply scaleBy_ofNat hdigits
    intro hpos
    have hlimit : UInt64.size * 10 ^ 62 ≤ decimalLimit := by decide +kernel
    apply Nat.le_trans _ hlimit
    apply Nat.mul_le_mul (Nat.le_of_lt hdigits)
    exact Nat.pow_le_pow_right (by decide) (by omega)

theorem isSome_value?_positional (negative : Bool) {s : Scaled}
    (h : s.exponent + (Nat.toDigits 10 s.digits).length < 62) :
  (positional negative s).value?.isSome = true
  := by
  rw [positional]
  simp only
  split
  · apply isSome_value?_of_length rfl
    simp only [List.length_append, List.length_replicate]
    omega
  · apply isSome_value?_of_length rfl
    simp only [List.length_take, List.length_append, List.length_replicate]
    omega

/-- The significand of a decimal in scientific form is made of its leading digits. -/
theorem isSome_value?_scientific (negative : Bool) {s : Scaled}
    (hplace : s.exponent + (Nat.toDigits 10 s.digits).length ≤ 309)
    (hscale : ∀ digits dropped : Nat, digits < UInt64.size → digits * 10 ^ dropped ≤ s.digits
      → (scaleBy 4 (Float.ofNat digits) (s.exponent + dropped)).isSome = true) :
  (scientific negative s).value?.isSome = true
  := by
  obtain ⟨c, cs, hcs⟩ := List.exists_cons_of_ne_nil (Decimal.isDigits_toDigits s.digits).1
  have hvalue := Decimal.valueOf_toDigits s.digits
  have hc := Decimal.digitValue_lt (Decimal.isDigit_of_mem_toDigits (n := s.digits)
    (hcs ▸ List.mem_cons_self))
  have hpower : (scientific negative s).power = s.exponent + cs.length := by
    simp only [power, scientific, hcs, List.length_cons, decide_eq_true_eq,
      Decimal.valueOf_toDigits]
    split <;> omega
  rw [hcs] at hvalue hplace
  have hwhole : absorb 0 (scientific negative s).whole = (Decimal.digitValue c, []) := by
    have hfirst : Decimal.valueOf 10 [c] = Decimal.digitValue c := by simp [Decimal.valueOf]
    have hsmall : Decimal.valueOf 10 [c] < UInt64.size := by
      rw [hfirst]
      exact Nat.lt_trans hc (by decide)
    simp only [scientific, hcs, List.take_succ_cons, List.take_zero]
    rw [absorb_zero hsmall, hfirst]
  have hfraction : (scientific negative s).fraction = cs := by
    simp only [scientific, hcs, List.drop_succ_cons, List.drop_zero]
  have hdigits := absorb_lt (Nat.lt_trans hc (by decide) : Decimal.digitValue c < UInt64.size) cs
  have hle := absorb_le (Decimal.digitValue c) cs
  have hdropped := length_absorb_le (Decimal.digitValue c) cs
  have hall : cs.foldl (fun n c => n * 10 + Decimal.digitValue c) (Decimal.digitValue c)
      = s.digits := by
    rw [← hvalue, Decimal.valueOf, List.foldl_cons, Nat.zero_mul, Nat.zero_add]
  rw [hall] at hle
  apply isSome_value? hwhole rfl
  · have hsize : ((UInt32.size / 2 : Nat) : Int) = 2147483648 := rfl
    rw [hpower, hsize]
    simp only [List.length_cons] at hplace
    omega
  · rw [hpower, hfraction]
    have hexponent : (([] : List Char).length : Int)
        - (cs.length - (absorb (Decimal.digitValue c) cs).2.length) + (s.exponent + cs.length)
        = s.exponent + (absorb (Decimal.digitValue c) cs).2.length := by
      simp only [List.length_nil]
      omega
    rw [hexponent]
    exact hscale _ _ hdigits hle

/-- The largest number has its own decimal, above the middle between it and the number
below. -/
theorem isSome_value?_largest (negative : Bool) :
  (scientific negative ⟨17976931348623157, 292⟩).value?.isSome = true
  := by
  cases negative <;> decide +kernel

end Numeral

/-! ### Finite numbers -/

theorem shortest_largest :
  ∀ nearBelow, (⟨2 ^ 53 - 1, 971, nearBelow⟩ : Binary).shortest .toEven = ⟨17976931348623157, 292⟩
  := by
  decide +kernel

/-- The upper ends of all intervals but the last. -/
theorem upperEnd_le {significand k : Nat} {e : Int} (hk : 0 < k) (hsignificand : significand < 2 ^ 53)
    (hexponent : e ≤ k) (hlargest : ¬ (significand = 2 ^ 53 - 1 ∧ e = k)) :
  (4 * significand + 2) * 2 ^ e.toNat ≤ (2 ^ 55 - 6) * 2 ^ k
  := by
  rcases Int.lt_or_eq_of_le hexponent with hlow | htop
  · -- one place lower everything is half as large
    obtain ⟨j, rfl⟩ : ∃ j, k = j + 1 := ⟨k - 1, by omega⟩
    have hdouble : 2 ^ (j + 1) = 2 * 2 ^ j := Nat.pow_succ'
    calc (4 * significand + 2) * 2 ^ e.toNat ≤ (2 ^ 55 - 2) * 2 ^ j :=
          Nat.mul_le_mul (by omega) (Nat.pow_le_pow_right (by decide) (by omega))
      _ ≤ (2 ^ 55 - 6) * 2 ^ (j + 1) := by
        rw [hdouble]
        omega
  · have hbelow : significand ≠ 2 ^ 53 - 1 := fun h => hlargest ⟨h, htop⟩
    exact Nat.mul_le_mul (by omega) (Nat.pow_le_pow_right (by decide) (by omega))

/-- The decimal of a number below the largest is below the middle between the two largest
numbers. -/
theorem atMost_shortest_of_lt {b : Binary} (hpos : b.significand ≠ 0)
    (hsignificand : b.significand < 2 ^ 53) (hexponent : b.exponent ≤ 971)
    (hlargest : ¬ (b.significand = 2 ^ 53 - 1 ∧ b.exponent = 971)) :
  (b.shortest .toEven).AtMost decimalLimit 1
  := by
  have hmost := Binary.atMost_shortest hpos .toEven
  have hunit : (2 ^ 55 - 6) * 2 ^ 971 = decimalLimit * 4 := by decide +kernel
  have hend := upperEnd_le (by decide : 0 < 971) hsignificand hexponent hlargest
  rw [hunit] at hend
  generalize decimalLimit = limit at *
  have hden : 1 ≤ 2 ^ (-b.exponent).toNat := Nat.one_le_two_pow
  have hhigh : b.interval.high ≤ limit * b.interval.den := by
    calc b.interval.high ≤ limit * 4 := hend
      _ ≤ limit * 4 * 2 ^ (-b.exponent).toNat := Nat.le_mul_of_pos_right _ hden
      _ = limit * b.interval.den := Nat.mul_assoc _ _ _
  generalize b.shortest .toEven = s at *
  rw [Scaled.AtMost] at hmost ⊢
  have hpositive : 0 < b.interval.den := Nat.mul_pos (by decide) (Nat.pow_pos (by decide))
  generalize b.interval.den = den at *
  rw [Nat.mul_one]
  apply Nat.le_of_mul_le_mul_right _ hpositive
  calc s.digits * 10 ^ s.exponent.toNat * den ≤ b.interval.high * 10 ^ (-s.exponent).toNat := hmost
    _ ≤ limit * den * 10 ^ (-s.exponent).toNat := Nat.mul_le_mul_right _ hhigh
    _ = limit * 10 ^ (-s.exponent).toNat * den := Nat.mul_right_comm _ _ _

/-- A finite number is written as a numeral that denotes a number. -/
theorem value?_ofFloat {x : Float} (hx : x.isFinite = true) :
  ∃ y, (Numeral.ofFloat x).value? = some (.float y)
  := by
  obtain ⟨hsignificand, hexponent⟩ := ofFloat_le_of_isFinite hx
  have hform : (Numeral.ofFloat x).hasPoint = true ∨ (Numeral.ofFloat x).exponent.isSome = true := by
    simp only [Numeral.ofFloat]
    split
    · simp only [Numeral.positional]
      split <;> exact Or.inl rfl
    · exact Or.inr rfl
  apply Numeral.exists_float_of_isSome hform
  rw [Numeral.ofFloat]
  generalize Binary.ofFloat x = b at *
  by_cases hlargest : b.significand = 2 ^ 53 - 1 ∧ b.exponent = 971
  · obtain ⟨significand, exponent, nearBelow⟩ := b
    obtain ⟨rfl, rfl⟩ : significand = 2 ^ 53 - 1 ∧ exponent = 971 := hlargest
    rw [shortest_largest]
    exact Numeral.isSome_value?_largest _
  · split
    · next hsmall =>
      apply Numeral.isSome_value?_positional
      rcases hsmall with hzero | hplace
      · rw [Binary.exponent_shortest hzero, hzero]
        decide
      · omega
    · next hlarge =>
      have hdigits : (b.shortest .toEven).digits ≠ 0 := fun h => hlarge (Or.inl h)
      have hpos : b.significand ≠ 0 := by
        intro hzero
        rw [Binary.shortest, if_pos hzero] at hdigits
        exact hdigits rfl
      have hmost := atMost_shortest_of_lt hpos hsignificand hexponent hlargest
      apply Numeral.isSome_value?_scientific
      · apply hmost.place_le hdigits
        rw [Nat.mul_one]
        exact decimalLimit_lt_power (Nat.le_refl 309)
      · intro digits dropped hsize hle
        exact scaleBy_ofNat hsize (hmost.le_of_leading hle)

end CorpusAudit.Json
