import CorpusAudit.Proofs.Float
import Mathlib

/-!
# Rounding and packing

A mantissa in the normal range is rounded to one of 53 binary digits, and the place of
its leading digit, the total exponent, stays or moves up by one.  What is rounded this
way is kept when it is packed.
-/

namespace CorpusAudit

open Float.Model (totalExponent Format)
open Float.Model.UnpackedFloat

/-! ### The length of numbers -/

theorem log2_mul {m n : Nat} (hm : 0 < m) (hn : 0 < n) :
  m.log2 + n.log2 ≤ (m * n).log2 ∧ (m * n).log2 ≤ m.log2 + n.log2 + 1
  := by
  have hmn : m * n ≠ 0 := Nat.ne_of_gt (Nat.mul_pos hm hn)
  constructor
  · rw [Nat.le_log2 hmn, Nat.pow_add]
    exact Nat.mul_le_mul (Nat.log2_self_le (Nat.ne_of_gt hm)) (Nat.log2_self_le (Nat.ne_of_gt hn))
  · apply Nat.le_of_lt_succ
    rw [Nat.log2_lt hmn, show (m.log2 + n.log2 + 1).succ = (m.log2 + 1) + (n.log2 + 1) by omega,
      Nat.pow_add]
    exact Nat.mul_lt_mul'' Nat.lt_log2_self Nat.lt_log2_self

theorem shiftLeft_pos {m : Nat} (h : 0 < m) (k : Nat) :
  0 < m <<< k
  := by
  rw [Nat.shiftLeft_eq]
  exact Nat.mul_pos h (Nat.two_pow_pos k)

theorem log2_shiftLeft {m : Nat} (h : 0 < m) (k : Nat) :
  (m <<< k).log2 = m.log2 + k
  := by
  obtain ⟨hlow, hhigh⟩ := (Nat.log2_eq_iff (Nat.ne_of_gt h)).mp rfl
  have hpos : m * 2 ^ k ≠ 0 := Nat.ne_of_gt (Nat.mul_pos h (Nat.two_pow_pos k))
  rw [Nat.shiftLeft_eq, Nat.log2_eq_iff hpos, Nat.pow_add]
  refine ⟨Nat.mul_le_mul_right _ hlow, ?_⟩
  rw [show m.log2 + k + 1 = (m.log2 + 1) + k by omega, Nat.pow_add]
  exact Nat.mul_lt_mul_of_pos_right hhigh (Nat.two_pow_pos k)

theorem log2_div {m n : Nat} (hn : 0 < n) (h : n.log2 + 1 ≤ m.log2) :
  m.log2 ≤ (m / n).log2 + n.log2 + 1 ∧ (m / n).log2 + n.log2 ≤ m.log2
  := by
  have hm : m ≠ 0 := by
    rintro rfl
    simp at h
  have hnm : n ≤ m := by
    apply Nat.le_of_lt
    apply Nat.lt_of_lt_of_le Nat.lt_log2_self
    exact Nat.le_trans (Nat.pow_le_pow_right (by decide) h) (Nat.log2_self_le hm)
  have hq : m / n ≠ 0 := Nat.ne_of_gt (Nat.div_pos hnm hn)
  obtain ⟨hlow, hhigh⟩ := (Nat.log2_eq_iff hq).mp rfl
  have hdiv : m / n * n ≤ m := Nat.div_mul_le_self m n
  have hmod : m < (m / n + 1) * n := Nat.lt_mul_of_div_lt (Nat.lt_succ_self _) hn
  constructor
  · apply Nat.le_of_lt_succ
    rw [Nat.log2_lt hm, show ((m / n).log2 + n.log2 + 1).succ = ((m / n).log2 + 1) + (n.log2 + 1)
      by omega, Nat.pow_add]
    apply Nat.lt_of_lt_of_le hmod
    exact Nat.mul_le_mul hhigh (Nat.le_of_lt Nat.lt_log2_self)
  · rw [Nat.le_log2 hm, Nat.pow_add]
    apply Nat.le_trans _ hdiv
    exact Nat.mul_le_mul hlow (Nat.log2_self_le (Nat.ne_of_gt hn))

theorem log2_add {m n : Nat} (h : m.log2 ≤ n.log2) (hn : 0 < n) :
  n.log2 ≤ (m + n).log2 ∧ (m + n).log2 ≤ n.log2 + 1
  := by
  have hmn : m + n ≠ 0 := by omega
  have hlow := Nat.log2_self_le (Nat.ne_of_gt hn)
  have hm : m < 2 ^ (n.log2 + 1) :=
    Nat.lt_of_lt_of_le Nat.lt_log2_self (Nat.pow_le_pow_right (by decide) (by omega))
  have hhigh : n < 2 ^ (n.log2 + 1) := Nat.lt_log2_self
  constructor
  · rw [Nat.le_log2 hmn]
    omega
  · apply Nat.le_of_lt_succ
    rw [Nat.log2_lt hmn, Nat.pow_succ]
    omega

theorem log2_add_le_max {m n : Nat} (hm : 0 < m) (hn : 0 < n) :
  max m.log2 n.log2 ≤ (m + n).log2 ∧ (m + n).log2 ≤ max m.log2 n.log2 + 1
  := by
  rcases Nat.le_total m.log2 n.log2 with h | h
  · rw [Nat.max_eq_right h]
    exact log2_add h hn
  · rw [Nat.max_eq_left h, Nat.add_comm m n]
    exact log2_add h hm

theorem log2_sqrt {n : Nat} (h : 0 < n) :
  n.sqrt.log2 = n.log2 / 2
  := by
  have hle := Nat.sqrt_le n
  have hlt := Nat.lt_succ_sqrt n
  generalize n.sqrt = r at *
  obtain ⟨hlow, hhigh⟩ := (Nat.log2_eq_iff (Nat.ne_of_gt h)).mp rfl
  generalize hk : n.log2 / 2 = k
  have hpow : 2 ^ k * 2 ^ k ≤ n := by
    rw [← Nat.pow_add]
    exact Nat.le_trans (Nat.pow_le_pow_right (by decide) (by omega)) hlow
  have hpow' : n < 2 ^ (k + 1) * 2 ^ (k + 1) := by
    rw [← Nat.pow_add]
    exact Nat.lt_of_lt_of_le hhigh (Nat.pow_le_pow_right (by decide) (by omega))
  have hr : 2 ^ k ≤ r := by
    apply Nat.le_of_lt_succ
    exact Nat.mul_self_lt_mul_self_iff.mp (Nat.lt_of_le_of_lt hpow hlt)
  rw [Nat.log2_eq_iff (Nat.ne_of_gt (Nat.lt_of_lt_of_le (Nat.two_pow_pos k) hr))]
  exact ⟨hr, Nat.mul_self_lt_mul_self_iff.mp (Nat.lt_of_le_of_lt hle hpow')⟩

/-! ### Rounding -/

theorem mantissa_shiftRight (m : ExtendedMantissa) (k : Nat) :
  (m >>> k).mantissa = m.mantissa / 2 ^ k
  := by
  show (k.repeat ExtendedMantissa.shiftRightOne m).mantissa = _
  induction k with
  | zero => simp [Nat.repeat]
  | succ k ih =>
    rw [Nat.repeat, ExtendedMantissa.shiftRightOne, ih, Nat.div_div_eq_div_mul, Nat.pow_succ]

theorem mantissa_ofMantissaAndAccuracy (m : Nat) (a : Accuracy) :
  (ExtendedMantissa.ofMantissaAndAccuracy m a).mantissa = m
  := by
  cases a with
  | exact => rfl
  | inexact o => cases o <;> rfl

theorem roundedMantissa_cases (m : ExtendedMantissa) :
  m.roundedMantissa = m.mantissa ∨ m.roundedMantissa = m.mantissa + 1
  := by
  obtain ⟨n, roundBit, stickyBit⟩ := m
  cases roundBit <;> cases stickyBit <;>
    simp [ExtendedMantissa.roundedMantissa, ExtendedMantissa.accuracy,
      Accuracy.roundToNearestEven, Nat.mod_two_eq_zero_or_one]

theorem totalExponent_eq (m : Nat) (e : Int) :
  totalExponent m e = m.log2 + 1 + e
  := rfl

/-- Above the subnormal numbers a mantissa has 53 digits. -/
theorem targetExponent_eq {n : Int} (h : -1000 ≤ n) :
  Format.binary64.targetExponent n = n - 53
  := by
  rw [Format.targetExponent]
  show max (n - 53) (-1074) = n - 53
  omega

/-- All but the first 53 digits of a mantissa are cut off. -/
theorem shiftToTargetExponent_eq {m : Nat} {e : Int} (a : Accuracy) (hm : 52 ≤ m.log2)
    (he : -1000 ≤ totalExponent m e) :
  shiftToTargetExponent .binary64 m e a
    = (ExtendedMantissa.ofMantissaAndAccuracy m a >>> (m.log2 - 52), totalExponent m e - 53)
  := by
  have hshift : (totalExponent m e - 53 - e).toNat = m.log2 - 52 := by
    rw [totalExponent]
    omega
  have hexponent : e + ((m.log2 - 52 : Nat) : Int) = totalExponent m e - 53 := by
    rw [totalExponent]
    omega
  rw [shiftToTargetExponent, targetExponent_eq he, shiftToExponent, hshift, hexponent]

theorem log2_mantissa_shiftRight {m : Nat} (a : Accuracy) (hm : 52 ≤ m.log2) :
  (ExtendedMantissa.ofMantissaAndAccuracy m a >>> (m.log2 - 52)).mantissa.log2 = 52
  := by
  rw [mantissa_shiftRight, mantissa_ofMantissaAndAccuracy, Nat.log2_eq_log_two,
    Nat.log_div_base_pow, ← Nat.log2_eq_log_two]
  omega

/-- A mantissa of 53 digits at least is rounded to one of 53 digits, and its leading
digit stays in its place or moves up by one. -/
theorem roundWithAccuracy_eq (s : Sign) {m : Nat} {e : Int} (a : Accuracy) (hm : 52 ≤ m.log2)
    (he : -1000 ≤ totalExponent m e) :
  ∃ m' e' h, roundWithAccuracy .binary64 s m e a = .finite s m' e' h ∧ m'.log2 = 52
    ∧ totalExponent m e ≤ totalExponent m' e' ∧ totalExponent m' e' ≤ totalExponent m e + 1
    ∧ m' * 2 ^ (e' - (totalExponent m e - 53)).toNat
      ≤ (ExtendedMantissa.ofMantissaAndAccuracy m a >>> (m.log2 - 52)).roundedMantissa
  := by
  rw [roundWithAccuracy, shiftToTargetExponent_eq a hm he]
  have hmantissa := log2_mantissa_shiftRight a hm
  generalize ExtendedMantissa.ofMantissaAndAccuracy m a >>> (m.log2 - 52) = kept at *
  -- rounding up reaches the next power of two at most
  have hlog : kept.roundedMantissa.log2 = 52 ∨ kept.roundedMantissa.log2 = 53 := by
    have hpos : kept.mantissa ≠ 0 := by
      intro h
      simp [h] at hmantissa
    have hbounds := (Nat.log2_eq_iff hpos).mp hmantissa
    rcases roundedMantissa_cases kept with h | h
    · exact Or.inl (h ▸ hmantissa)
    · rcases Nat.lt_or_ge kept.roundedMantissa (2 ^ 53) with hlt | hge
      · exact Or.inl ((Nat.log2_eq_iff (by omega)).mpr (by omega))
      · exact Or.inr ((Nat.log2_eq_iff (by omega)).mpr (by omega))
  have hplace : totalExponent kept.roundedMantissa (totalExponent m e - 53)
      = totalExponent m e + ((kept.roundedMantissa.log2 - 52 : Nat) : Int) := by
    simp only [totalExponent_eq kept.roundedMantissa]
    omega
  have hrounded : 52 ≤ kept.roundedMantissa.log2 := by omega
  simp only [shiftToTargetExponent_eq .exact hrounded (by omega : -1000 ≤ totalExponent
    kept.roundedMantissa (totalExponent m e - 53))]
  have hmantissa' := log2_mantissa_shiftRight .exact hrounded
  have hfinal : (ExtendedMantissa.ofMantissaAndAccuracy kept.roundedMantissa .exact
      >>> (kept.roundedMantissa.log2 - 52)).mantissa ≠ 0 := by
    intro h
    simp [h] at hmantissa'
  rw [dif_neg hfinal]
  refine ⟨_, _, Nat.pos_of_ne_zero hfinal, rfl, hmantissa', ?_, ?_, ?_⟩
  · simp only [totalExponent_eq (ExtendedMantissa.mantissa _), hmantissa', hplace]
    omega
  · simp only [totalExponent_eq (ExtendedMantissa.mantissa _), hmantissa', hplace]
    omega
  · -- what the leading digit moves up by is cut off again
    have hshift : (totalExponent kept.roundedMantissa (totalExponent m e - 53) - 53
        - (totalExponent m e - 53)).toNat = kept.roundedMantissa.log2 - 52 := by
      omega
    rw [hshift, mantissa_shiftRight, mantissa_ofMantissaAndAccuracy]
    exact Nat.div_mul_le_self _ _

/-- Half a unit of the last digit is what a mantissa is rounded up by at most. -/
theorem two_mul_roundedMantissa_le (m k : Nat) :
  2 * (ExtendedMantissa.ofMantissaAndAccuracy m .exact >>> k).roundedMantissa
    ≤ 2 * m / 2 ^ k + 1
  := by
  cases k with
  | zero =>
    have hround : (ExtendedMantissa.ofMantissaAndAccuracy m .exact >>> 0).roundedMantissa = m := rfl
    rw [hround]
    omega
  | succ k =>
    have hmantissa := mantissa_shiftRight (.ofMantissaAndAccuracy m .exact) k
    rw [mantissa_ofMantissaAndAccuracy] at hmantissa
    have hbits : 2 * m / 2 ^ (k + 1) = m / 2 ^ k := by
      rw [Nat.pow_succ', Nat.mul_div_mul_left _ _ (by decide)]
    rw [hbits, ← hmantissa]
    have hshift : ExtendedMantissa.ofMantissaAndAccuracy m .exact >>> (k + 1)
        = (ExtendedMantissa.ofMantissaAndAccuracy m .exact >>> k).shiftRightOne := rfl
    rw [hshift]
    generalize ExtendedMantissa.ofMantissaAndAccuracy m .exact >>> k = kept
    obtain ⟨n, roundBit, stickyBit⟩ := kept
    show 2 * ExtendedMantissa.roundedMantissa ⟨n / 2, n % 2 != 0, roundBit || stickyBit⟩ ≤ n + 1
    rcases Nat.mod_two_eq_zero_or_one n with heven | hodd
    · have hround : ExtendedMantissa.roundedMantissa ⟨n / 2, n % 2 != 0, roundBit || stickyBit⟩
          = n / 2 := by
        rw [heven]
        cases roundBit <;> cases stickyBit <;> rfl
      omega
    · rcases roundedMantissa_cases ⟨n / 2, n % 2 != 0, roundBit || stickyBit⟩ with h | h
      · rw [h]
        show 2 * (n / 2) ≤ n + 1
        omega
      · rw [h]
        show 2 * (n / 2 + 1) ≤ n + 1
        omega

/-- A mantissa of any length is rounded like one of 53 digits at least. -/
theorem round_eq (s : Sign) {m : Nat} {e : Int} (h : 0 < m) (he : -1000 ≤ totalExponent m e) :
  ∃ m' e', round .binary64 s m e = roundWithAccuracy .binary64 s m' e' .exact ∧ 52 ≤ m'.log2
    ∧ totalExponent m' e' = totalExponent m e
  := by
  rw [Float.Model.UnpackedFloat.round]
  simp only [targetExponent_eq he, decreaseExponent]
  refine ⟨_, _, rfl, ?_, ?_⟩
  · rw [log2_shiftLeft h, totalExponent_eq]
    omega
  · simp only [totalExponent_eq, log2_shiftLeft h]
    omega

theorem normalize_natCast {n : Nat} (h : 0 < n) (e : Int) (s : Sign) :
  normalize .binary64 n e s = round .binary64 .positive n e
  := by
  have hgt : compare (n : Int) 0 = .gt := Int.compare_eq_gt.mpr (by omega)
  rw [Float.Model.UnpackedFloat.normalize, hgt]
  rfl

/-! ### Packing -/

theorem unpackSign_packComponents (s : Sign) (e : BitVec 11) (m : BitVec 52) :
  unpackSign (packComponents .binary64 s e m) = s.toBitVec
  := by
  rw [unpackSign, packComponents, BitVec.extractLsb,
    BitVec.extractLsb'_append_eq_of_le (by decide),
    BitVec.extractLsb'_append_eq_of_le (by decide)]
  cases s <;> rfl

/-- The first of the 53 digits of a mantissa is not stored. -/
theorem toNat_one_append (m : BitVec 52) :
  (1#1 ++ m).toNat = 2 ^ 52 + m.toNat
  := by
  rw [BitVec.toNat_append, ← Nat.shiftLeft_add_eq_or_of_lt (BitVec.isLt _)]
  simp [Nat.shiftLeft_eq]

/-- A mantissa of 53 digits is kept, as long as its leading digit is in range. -/
theorem unpack_pack_finite (s : Sign) {m : Nat} {e : Int} (h : 0 < m) (hm : m.log2 = 52)
    (hlow : -1000 ≤ totalExponent m e) (hhigh : totalExponent m e ≤ 1024) :
  (Float.Model.pack (.finite s m e h)).unpack = .finite s m e h
  := by
  rw [totalExponent_eq] at hlow hhigh
  have hbounds := (Nat.log2_eq_iff (Nat.ne_of_gt h)).mp hm
  show unpack .binary64 (pack .binary64 (.finite s m e h)) = .finite s m e h
  have hsign : Sign.ofBitVec s.toBitVec = s := by cases s <;> rfl
  have hrange : ¬ 2 ^ 11 ≤ (e + 1023 + 52).toNat + 1 := by omega
  have hpack : pack .binary64 (.finite s m e h)
      = packComponents .binary64 s (BitVec.ofNat 11 (e + 1023 + 52).toNat) (BitVec.ofNat 52 m) := by
    rw [pack]
    simp only [hm]
    exact if_neg hrange
  generalize hb : (e + 1023 + 52).toNat = b at *
  have hb' : (BitVec.ofNat 11 b).toNat = b := by
    rw [BitVec.toNat_ofNat]
    omega
  have hne (c : BitVec 11) (hc : b ≠ c.toNat) : BitVec.ofNat 11 b ≠ c := by
    rintro rfl
    exact hc hb'.symm
  have hones : BitVec.ofNat 11 b ≠ -1#11 := hne _ (by show b ≠ 2047; omega)
  have hzero : BitVec.ofNat 11 b ≠ 0#11 := hne _ (by show b ≠ 0; omega)
  have hmantissa : (1#1 ++ BitVec.ofNat 52 m).toNat = m := by
    rw [toNat_one_append, BitVec.toNat_ofNat]
    omega
  have hexponent : (b : Int) - ((Format.binary64.exponentBias : Nat) + (52 : Nat)) = e := by
    show (b : Int) - (1023 + 52) = e
    omega
  rw [hpack, unpack]
  simp only [unpackMantissa_packComponents, unpackExponent_packComponents,
    unpackSign_packComponents, hones, hzero, if_false, hb', hsign, hmantissa, hexponent]

end CorpusAudit
