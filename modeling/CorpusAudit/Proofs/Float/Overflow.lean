import CorpusAudit.Decimal.Reading
import CorpusAudit.Proofs.Float.Magnitude

/-!
# Products that stay in range

A product of floating-point numbers leaves the range if it reaches the middle between the
largest number and the next power of two (`rangeLimit`).  Numbers from one on are
compared with that limit in units of `2 ^ -52`, of which they are multiples; products in
units of `2 ^ -104`.  So a count may be multiplied by a power of ten as long as the exact
product is some way below the largest number (`isFinite_ofNat_mul_power`).
-/

namespace CorpusAudit

open Float.Model (totalExponent)
open Float.Model.UnpackedFloat

/-- The middle between the largest number and the next power of two. -/
def rangeLimit : Nat :=
  (2 ^ 54 - 1) * 2 ^ 970

/-- A number from one on, in units of `2 ^ -52`. -/
def magnitude (x : Float) : Nat :=
  match unpacked x with
  | .finite _ m e _ => m * 2 ^ (e + 52).toNat
  | _ => 0

theorem magnitude_eq {x : Float} {s : Sign} {m : Nat} {e : Int} {h : 0 < m}
    (hx : unpacked x = .finite s m e h) :
  magnitude x = m * 2 ^ (e + 52).toNat
  := by
  rw [magnitude, hx]

/-! ### Rounding -/

/-- A mantissa below the limit is not rounded up to a power of two out of range. -/
theorem totalExponent_le_of_lt_rangeLimit {m m' : Nat} {e e' : Int} (hm : 53 ≤ m.log2)
    (he : -104 ≤ e) (hlimit : m * 2 ^ (e + 104).toNat < rangeLimit * 2 ^ 104) (hm' : m'.log2 = 52)
    (hdown : totalExponent m' e' ≤ totalExponent m e + 1)
    (hvalue : 2 * (m' * 2 ^ (e' - (totalExponent m e - 53)).toNat)
      ≤ 2 * m / 2 ^ (m.log2 - 52) + 1) :
  totalExponent m' e' ≤ 1024
  := by
  have hpos : m ≠ 0 := by
    rintro rfl
    simp at hm
  have hpos' : m' ≠ 0 := by
    rintro rfl
    simp at hm'
  obtain ⟨hleast, hmost⟩ := (Nat.log2_eq_iff hpos).mp rfl
  have hplace := totalExponent_eq m e
  have hplace' := totalExponent_eq m' e'
  have hbinary : rangeLimit * 2 ^ 104 = (2 ^ 54 - 1) * 2 ^ 1074 := by decide +kernel
  rw [hbinary] at hlimit
  generalize hk : 1074 = k at hlimit
  -- the leading digit of the mantissa stands at most at the place of the limit
  have hhigh : totalExponent m e ≤ 1024 := by
    by_contra hfar
    have hpower : 2 ^ 54 * 2 ^ k ≤ m * 2 ^ (e + 104).toNat := by
      calc 2 ^ 54 * 2 ^ k = 2 ^ (54 + k) := (Nat.pow_add 2 54 k).symm
        _ ≤ 2 ^ (m.log2 + (e + 104).toNat) := Nat.pow_le_pow_right (by decide) (by omega)
        _ = 2 ^ m.log2 * 2 ^ (e + 104).toNat := Nat.pow_add 2 _ _
        _ ≤ m * 2 ^ (e + 104).toNat := Nat.mul_le_mul_right _ hleast
    omega
  by_contra hfar
  -- at that place it would have to be rounded up to the next power of two
  have hquotient : 2 ^ 54 - 1 ≤ 2 * m / 2 ^ (m.log2 - 52) := by
    have hbounds := (Nat.log2_eq_iff hpos').mp hm'
    have hshift : (e' - (totalExponent m e - 53)).toNat = 1 := by omega
    rw [hshift] at hvalue
    omega
  rw [Nat.le_div_iff_mul_le (Nat.two_pow_pos _)] at hquotient
  apply absurd hlimit
  rw [Nat.not_lt]
  apply Nat.le_of_mul_le_mul_left _ (by decide : 0 < 2)
  calc 2 * ((2 ^ 54 - 1) * 2 ^ k)
      = (2 ^ 54 - 1) * 2 ^ (m.log2 - 52) * 2 ^ (e + 104).toNat := by
        have hplaces : m.log2 - 52 + (e + 104).toNat = k + 1 := by omega
        have hdouble : 2 ^ (k + 1) = 2 * 2 ^ k := Nat.pow_succ'
        rw [Nat.mul_assoc (2 ^ 54 - 1), ← Nat.pow_add, hplaces, hdouble]
        exact Nat.mul_left_comm 2 _ _
    _ ≤ 2 * m * 2 ^ (e + 104).toNat := Nat.mul_le_mul_right _ hquotient
    _ = 2 * (m * 2 ^ (e + 104).toNat) := Nat.mul_assoc 2 m _

/-- What is rounded below the limit stays in range, and is rounded up by half a unit of
its last digit at most. -/
theorem magnitude_of_round {m : Nat} {e : Int} {x : Float}
    (hx : unpacked x
      = (Float.Model.pack (roundWithAccuracy .binary64 .positive m e .exact)).unpack)
    (hm : 52 ≤ m.log2) (hlow : 1 ≤ totalExponent m e)
    (hhigh : totalExponent m e < 1024
      ∨ 53 ≤ m.log2 ∧ -104 ≤ e ∧ m * 2 ^ (e + 104).toNat < rangeLimit * 2 ^ 104) :
  isBetween 1 1024 x = true
    ∧ magnitude x ≤ (2 * m / 2 ^ (m.log2 - 52) + 1) / 2 * 2 ^ (totalExponent m e - 1).toNat
  := by
  obtain ⟨m', e', h, heq, hm', hup, hdown, hvalue⟩ :=
    roundWithAccuracy_eq .positive .exact hm (by omega : -1000 ≤ totalExponent m e)
  have hrounded := two_mul_roundedMantissa_le m (m.log2 - 52)
  have hplace' := totalExponent_eq m' e'
  have htop : totalExponent m' e' ≤ 1024 := by
    rcases hhigh with hnear | ⟨hm, he, hlimit⟩
    · omega
    · exact totalExponent_le_of_lt_rangeLimit hm he hlimit hm' hdown (by omega)
  rw [heq, unpack_pack_finite _ h hm' (by omega) htop] at hx
  have hscale : (e' + 52).toNat
      = (e' - (totalExponent m e - 53)).toNat + (totalExponent m e - 1).toNat := by
    omega
  constructor
  · exact isBetween_iff.mpr ⟨m', e', h, hx, hm', by omega, htop⟩
  · rw [magnitude_eq hx, hscale, Nat.pow_add, ← Nat.mul_assoc]
    apply Nat.mul_le_mul_right
    omega

/-- A product of numbers from one on that is below the limit. -/
theorem isFinite_mul {x y : Float} (hx : isBetween 1 1024 x = true)
    (hy : isBetween 1 1024 y = true) (hlimit : magnitude x * magnitude y < rangeLimit * 2 ^ 104) :
  (x * y).isFinite = true
  := by
  obtain ⟨m, e, h, heq, hm, hl, -⟩ := isBetween_iff.mp hx
  obtain ⟨m', e', h', heq', hm', hl', -⟩ := isBetween_iff.mp hy
  simp only [totalExponent_eq] at hl hl'
  have hproduct : unpacked (x * y)
      = (Float.Model.pack
        (roundWithAccuracy .binary64 .positive (m * m') (e + e') .exact)).unpack := by
    show (Float.Model.pack (mul .binary64 (unpacked x) (unpacked y))).unpack = _
    rw [heq, heq']
    rfl
  have hlog := log2_mul h h'
  have hplace := totalExponent_eq (m * m') (e + e')
  have hscale : m * m' * 2 ^ (e + e' + 104).toNat < rangeLimit * 2 ^ 104 := by
    rw [magnitude_eq heq, magnitude_eq heq'] at hlimit
    rw [show (e + e' + 104).toNat = (e + 52).toNat + (e' + 52).toNat by omega, Nat.pow_add,
      Nat.mul_mul_mul_comm]
    exact hlimit
  apply isFinite_of_isWithin
  exact Or.inr (magnitude_of_round hproduct (by omega) (by omega)
    (Or.inr ⟨by omega, by omega, hscale⟩)).1

/-! ### Counts -/

/-- A count, rounded to 53 digits with halves going up, in units of `2 ^ -52`. -/
def halfUp (n : Nat) : Nat :=
  (2 * (n * 2 ^ 53) / 2 ^ (n.log2 + 1) + 1) / 2 * 2 ^ n.log2

/-- A larger count is rounded to a larger number. -/
theorem halfUp_mono {n k : Nat} (hn : 0 < n) (h : n ≤ k) :
  halfUp n ≤ halfUp k
  := by
  obtain ⟨hlow, hhigh⟩ := (Nat.log2_eq_iff (Nat.ne_of_gt hn)).mp rfl
  have hk : 0 < k := Nat.lt_of_lt_of_le hn h
  obtain ⟨hlow', hhigh'⟩ := (Nat.log2_eq_iff (Nat.ne_of_gt hk)).mp rfl
  have hlog : n.log2 ≤ k.log2 := (Nat.le_log2 (Nat.ne_of_gt hk)).mpr (Nat.le_trans hlow h)
  rcases Nat.lt_or_eq_of_le hlog with hlt | heq
  · -- the power of two between the two counts is rounded to itself
    have hupper : 2 * (n * 2 ^ 53) / 2 ^ (n.log2 + 1) < 2 ^ 54 := by
      apply Nat.div_lt_of_lt_mul
      calc 2 * (n * 2 ^ 53) = n * 2 ^ 54 := by ring
        _ < 2 ^ (n.log2 + 1) * 2 ^ 54 := Nat.mul_lt_mul_of_pos_right hhigh (by decide)
    have hlower : 2 ^ 53 ≤ 2 * (k * 2 ^ 53) / 2 ^ (k.log2 + 1) := by
      rw [Nat.le_div_iff_mul_le (Nat.two_pow_pos _), Nat.pow_succ]
      calc 2 ^ 53 * (2 ^ k.log2 * 2) = 2 * (2 ^ k.log2 * 2 ^ 53) := by ring
        _ ≤ 2 * (k * 2 ^ 53) := Nat.mul_le_mul_left _ (Nat.mul_le_mul_right _ hlow')
    calc halfUp n ≤ 2 ^ 53 * 2 ^ n.log2 := Nat.mul_le_mul_right _ (by omega)
      _ = 2 ^ 52 * 2 ^ (n.log2 + 1) := by ring
      _ ≤ 2 ^ 52 * 2 ^ k.log2 := Nat.mul_le_mul_left _ (Nat.pow_le_pow_right (by decide) hlt)
      _ ≤ halfUp k := Nat.mul_le_mul_right _ (by omega)
  · rw [halfUp, halfUp, heq]
    apply Nat.mul_le_mul_right
    apply Nat.div_le_div_right
    apply Nat.succ_le_succ
    apply Nat.div_le_div_right
    exact Nat.mul_le_mul_left 2 (Nat.mul_le_mul_right _ h)

theorem halfUp_of_small {n : Nat} (h : n.log2 ≤ 52) :
  halfUp n = n * 2 ^ 52
  := by
  have hexact : 2 * (n * 2 ^ 53) / 2 ^ (n.log2 + 1) = 2 * (n * 2 ^ (52 - n.log2)) := by
    apply Nat.div_eq_of_eq_mul_left (Nat.two_pow_pos _)
    calc 2 * (n * 2 ^ 53) = 2 * (n * 2 ^ ((52 - n.log2) + (n.log2 + 1))) := by
          rw [show (52 - n.log2) + (n.log2 + 1) = 53 by omega]
      _ = 2 * (n * 2 ^ (52 - n.log2)) * 2 ^ (n.log2 + 1) := by
          rw [Nat.pow_add]
          ring
  rw [halfUp, hexact, show (2 * (n * 2 ^ (52 - n.log2)) + 1) / 2 = n * 2 ^ (52 - n.log2) by omega,
    Nat.mul_assoc, ← Nat.pow_add, Nat.sub_add_cancel h]

theorem magnitude_toFloat {n : Nat} (h : 0 < n) (hn : n < 2 ^ 53) :
  magnitude n.toUInt64.toFloat ≤ n * 2 ^ 52
  := by
  have hlog : n.log2 < 53 := (Nat.log2_lt (Nat.ne_of_gt h)).mpr hn
  have hplace := totalExponent_eq n 0
  have hshift := log2_shiftLeft h (52 - n.log2)
  have hround : round .binary64 .positive n 0 = roundWithAccuracy .binary64 .positive
      (n <<< (52 - n.log2)) (n.log2 - 52) .exact := by
    have hdigits : (0 - (totalExponent n 0 - 53)).toNat = 52 - n.log2 := by omega
    have hexponent : (0 : Int) - ((52 - n.log2 : Nat) : Int) = n.log2 - 52 := by omega
    simp only [Float.Model.UnpackedFloat.round, targetExponent_eq (by omega :
      -1000 ≤ totalExponent n 0), decreaseExponent, hdigits, hexponent]
  have hfloat : unpacked n.toUInt64.toFloat = (Float.Model.pack (roundWithAccuracy .binary64
      .positive (n <<< (52 - n.log2)) (n.log2 - 52) .exact)).unpack := by
    have hto : n.toUInt64.toNat = n := Nat.mod_eq_of_lt (Nat.lt_trans hn (by decide))
    show (Float.Model.pack (normalize .binary64 n.toUInt64.toNat 0 .positive)).unpack = _
    rw [hto, normalize_natCast h, hround]
  have hplace' := totalExponent_eq (n <<< (52 - n.log2)) (n.log2 - 52)
  have hle := (magnitude_of_round hfloat (by omega) (by omega) (Or.inl (by omega))).2
  rw [show (n <<< (52 - n.log2)).log2 - 52 = 0 by omega, show (totalExponent (n <<< (52 - n.log2))
    ((n.log2 : Int) - 52) - 1).toNat = n.log2 by omega, Nat.pow_zero, Nat.div_one,
    Nat.shiftLeft_eq, show (2 * (n * 2 ^ (52 - n.log2)) + 1) / 2 = n * 2 ^ (52 - n.log2) by omega,
    Nat.mul_assoc, ← Nat.pow_add, Nat.sub_add_cancel (by omega)] at hle
  exact hle

/-- A number times one, which is the number of that magnitude. -/
theorem magnitude_mul_one {x y : Float} (hx : isBetween 1 65 x = true)
    (hy : isBetween 1 1 y = true) (hone : magnitude y = 2 ^ 52) :
  magnitude (x * y) ≤ magnitude x
  := by
  obtain ⟨m, e, h, heq, hm, hl, hh⟩ := isBetween_iff.mp hx
  obtain ⟨m', e', h', heq', hm', hl', hh'⟩ := isBetween_iff.mp hy
  simp only [totalExponent_eq] at hl hh hl' hh'
  obtain rfl : e' = -52 := by omega
  obtain rfl : m' = 2 ^ 52 := by
    rw [← hone, magnitude_eq heq']
    exact (Nat.mul_one m').symm
  have hproduct : unpacked (x * y) = (Float.Model.pack (roundWithAccuracy .binary64 .positive
      (m * 2 ^ 52) (e + -52) .exact)).unpack := by
    show (Float.Model.pack (mul .binary64 (unpacked x) (unpacked y))).unpack = _
    rw [heq, heq']
    rfl
  have hlog : (m * 2 ^ 52).log2 = m.log2 + 52 := by
    rw [← Nat.shiftLeft_eq, log2_shiftLeft h]
  have hplace := totalExponent_eq (m * 2 ^ 52) (e + -52)
  have hdigits : (m * 2 ^ 52).log2 - 52 = 52 := by omega
  have hscale : (totalExponent (m * 2 ^ 52) (e + -52) - 1).toNat = (e + 52).toNat := by omega
  have hexact : (2 * (m * 2 ^ 52) / 2 ^ 52 + 1) / 2 = m := by omega
  have hle := (magnitude_of_round hproduct (by omega) (by omega) (Or.inl (by omega))).2
  rw [hdigits, hscale, hexact] at hle
  rw [magnitude_eq heq]
  exact hle

/-- A large whole number is rounded to no more than half up. -/
theorem magnitude_of_round_whole {n : Nat} (h : 0 < n) (hlimit : n < rangeLimit)
    {x : Float} (hx : unpacked x
      = (Float.Model.pack (roundWithAccuracy .binary64 .positive (n <<< 53) (-53) .exact)).unpack) :
  isBetween 1 1024 x = true ∧ magnitude x ≤ halfUp n
  := by
  have hshift := log2_shiftLeft h 53
  have hplace := totalExponent_eq (n <<< 53) (-53)
  have hscale : (totalExponent (n <<< 53) (-53) - 1).toNat = n.log2 := by omega
  have hdigits : n.log2 + 53 - 52 = n.log2 + 1 := by omega
  have hbelow : n <<< 53 * 2 ^ (-53 + 104 : Int).toNat < rangeLimit * 2 ^ 104 := by
    generalize rangeLimit = limit at *
    rw [Nat.shiftLeft_eq, Nat.mul_assoc]
    exact Nat.mul_lt_mul_of_pos_right hlimit (by decide)
  have hmagnitude := magnitude_of_round hx (by omega) (by omega)
    (Or.inr ⟨by omega, by decide, hbelow⟩)
  rwa [hshift, hscale, hdigits, Nat.shiftLeft_eq] at hmagnitude

/-- A count of 64 bits is rounded to no more than half up. -/
theorem magnitude_ofNat {n : Nat} (h : 0 < n) (hn : n < UInt64.size) :
  magnitude (Float.ofNat n) ≤ halfUp n
  := by
  show magnitude (Float.ofScientific n false 0) ≤ halfUp n
  by_cases hsmall : n < 2 ^ 53 ∧ 0 ≤ 22
  · have hone : ∀ _ : 0 < Float.exactlyRepresentablePowersOfTen.size,
        isBetween 1 1 Float.exactlyRepresentablePowersOfTen[0] = true
          ∧ magnitude Float.exactlyRepresentablePowersOfTen[0] = 2 ^ 52 := by
      decide +kernel
    have hlog : n.log2 < 53 := (Nat.log2_lt (Nat.ne_of_gt h)).mpr hsmall.1
    rw [Float.ofScientific, dif_pos hsmall, halfUp_of_small (by omega)]
    exact Nat.le_trans (magnitude_mul_one (isBetween_toFloat h hn) (hone (by decide)).1
      (hone (by decide)).2) (magnitude_toFloat h hsmall.1)
  · have hround := unpacked_ofScientific h hsmall (by decide)
    rw [Nat.pow_zero, Nat.mul_one] at hround
    have hlimit : UInt64.size ≤ rangeLimit := by decide +kernel
    exact (magnitude_of_round_whole h (Nat.lt_of_lt_of_le hn hlimit) hround).2

/-! ### Powers of ten -/

/-- A power of ten is rounded to no more than half up. -/
theorem magnitude_power {k : Nat} (hk : k ≤ 308) :
  isBetween 1 1024 (Decimal.nearestFloat 1 k) = true
    ∧ magnitude (Decimal.nearestFloat 1 k) ≤ halfUp (10 ^ k)
  := by
  rcases Nat.lt_or_ge k 23 with hsmall | hlarge
  · have htable : ∀ k < 23, isBetween 1 1024 (Decimal.nearestFloat 1 (k : Nat)) = true
        ∧ magnitude (Decimal.nearestFloat 1 (k : Nat)) ≤ halfUp (10 ^ k) := by
      decide +kernel
    exact htable k hsmall
  · have hfloat : Decimal.nearestFloat 1 k = Float.ofScientific 1 false k := by
      have hone : (Nat.toDigits 10 1).length = 1 := by decide
      simp only [Decimal.nearestFloat, hone]
      rw [if_neg (by omega), if_neg (by omega), decide_eq_false (by omega), Int.natAbs_natCast]
    have hround := unpacked_ofScientific (by decide : 0 < 1) (by omega : ¬ (1 < 2 ^ 53 ∧ k ≤ 22))
      (by omega)
    have hlimit : ∀ k < 309, 10 ^ k < rangeLimit := by decide +kernel
    rw [Nat.one_mul] at hround
    rw [hfloat]
    exact magnitude_of_round_whole (Nat.pow_pos (by decide)) (hlimit k (by omega)) hround

/-- The middle between the two largest numbers. -/
def decimalLimit : Nat :=
  (2 ^ 54 - 3) * 2 ^ 970

/-- The largest count of 64 bits whose product with a power of ten is below the middle
between the two largest numbers stays in range with it. -/
theorem halfUp_mul_power :
  ∀ k < 309, halfUp (min (UInt64.size - 1) (decimalLimit / 10 ^ k)) * halfUp (10 ^ k)
    < rangeLimit * 2 ^ 104
  := by
  decide +kernel

/-- A count of 64 bits may be multiplied by a power of ten if the exact product is below the
middle between the two largest numbers. -/
theorem isFinite_ofNat_mul_power {n k : Nat} (hn : n < UInt64.size) (hk : k ≤ 308)
    (hlimit : n * 10 ^ k ≤ decimalLimit) :
  (Float.ofNat n * Decimal.nearestFloat 1 k).isFinite = true
  := by
  obtain ⟨hpower, hmagnitude⟩ := magnitude_power hk
  rcases Nat.eq_zero_or_pos n with rfl | hpos
  · obtain ⟨m, e, h, heq, -⟩ := isBetween_iff.mp hpower
    show (unpacked (Float.ofNat 0 * Decimal.nearestFloat 1 k)).isFinite = true
    have hzero : unpacked (Float.ofNat 0 * Decimal.nearestFloat 1 k) = .zero .positive := by
      show (Float.Model.pack (mul .binary64 (unpacked _) (unpacked _))).unpack = _
      rw [unpacked_zero, heq]
      exact unpack_pack_zero _
    rw [hzero]
    rfl
  · have hlargest : n ≤ min (UInt64.size - 1) (decimalLimit / 10 ^ k) := by
      apply Nat.le_min.mpr
      exact ⟨Nat.le_sub_one_of_lt hn, (Nat.le_div_iff_mul_le (Nat.pow_pos (by decide))).mpr hlimit⟩
    apply isFinite_mul (isBetween_mono (isBetween_ofNat hpos hn) (by decide) (by decide)) hpower
    apply Nat.lt_of_le_of_lt _ (halfUp_mul_power k (by omega))
    exact Nat.mul_le_mul (Nat.le_trans (magnitude_ofNat hpos hn) (halfUp_mono hpos hlargest))
      hmagnitude

end CorpusAudit
