import CorpusAudit.Proofs.Float.Rounding

/-!
# The size of floating-point numbers

Each operation of arithmetic moves the leading digit of positive numbers by little, so
what is computed in a few steps from counts of 64 bits is far from the ends of the range
of floating-point numbers.
-/

namespace CorpusAudit

open Float.Model (totalExponent)
open Float.Model.UnpackedFloat

/-! ### Numbers in a range -/

/-- Whether a number is positive with its leading digit between two places. -/
def isBetween (low high : Int) (x : Float) : Bool :=
  match unpacked x with
  | .finite .positive m e _ =>
    m.log2 = 52 && low ≤ totalExponent m e && totalExponent m e ≤ high
  | _ => false

theorem isBetween_iff {low high : Int} {x : Float} :
  isBetween low high x = true
    ↔ ∃ m e h, unpacked x = .finite .positive m e h ∧ m.log2 = 52 ∧ low ≤ totalExponent m e
      ∧ totalExponent m e ≤ high
  := by
  rw [isBetween]
  constructor
  · intro hx
    split at hx
    · next m e h heq =>
      simp only [Bool.and_eq_true, decide_eq_true_eq] at hx
      exact ⟨m, e, h, heq, hx.1.1, hx.1.2, hx.2⟩
    · simp at hx
  · rintro ⟨m, e, h, heq, hm, hlow, hhigh⟩
    simp [heq, hm, hlow, hhigh]

theorem isBetween_mono {low high low' high' : Int} {x : Float} (hx : isBetween low high x = true)
    (hlow : low' ≤ low) (hhigh : high ≤ high') :
  isBetween low' high' x = true
  := by
  obtain ⟨m, e, h, heq, hm, hl, hh⟩ := isBetween_iff.mp hx
  apply isBetween_iff.mpr
  exact ⟨m, e, h, heq, hm, Int.le_trans hlow hl, Int.le_trans hh hhigh⟩

/-- A number is kept when it is packed. -/
theorem pack_unpacked {low high : Int} {x : Float} (hx : isBetween low high x = true)
    (hlow : -1000 ≤ low) (hhigh : high ≤ 1000) :
  (Float.Model.pack (unpacked x)).unpack = unpacked x
  := by
  obtain ⟨m, e, h, heq, hm, hl, hh⟩ := isBetween_iff.mp hx
  rw [heq]
  exact unpack_pack_finite _ h hm (by omega) (by omega)

/-- What is rounded in range has its leading digit there or one place higher. -/
theorem isBetween_of_round {low high : Int} {m : Nat} {e : Int} {a : Accuracy} {x : Float}
    (hx : unpacked x
      = (Float.Model.pack (roundWithAccuracy .binary64 .positive m e a)).unpack)
    (hm : 52 ≤ m.log2) (hlow : low ≤ totalExponent m e) (hhigh : totalExponent m e ≤ high)
    (hrange : -1000 ≤ low ∧ high < 1000) :
  isBetween low (high + 1) x = true
  := by
  obtain ⟨m', e', h, heq, hm', hup, hdown, -⟩ :=
    roundWithAccuracy_eq .positive (e := e) a hm (by omega)
  apply isBetween_iff.mpr
  refine ⟨m', e', h, ?_, hm', by omega, by omega⟩
  rw [hx, heq]
  exact unpack_pack_finite _ h hm' (by omega) (by omega)

/-! ### Operations of arithmetic -/

/-- The product of two numbers. -/
theorem isBetween_mul {low high low' high' : Int} {x y : Float} (hx : isBetween low high x = true)
    (hy : isBetween low' high' y = true) (hrange : -1000 < low + low' ∧ high + high' < 1000) :
  isBetween (low + low' - 1) (high + high' + 1) (x * y) = true
  := by
  obtain ⟨m, e, h, heq, hm, hl, hh⟩ := isBetween_iff.mp hx
  obtain ⟨m', e', h', heq', hm', hl', hh'⟩ := isBetween_iff.mp hy
  have hproduct : unpacked (x * y)
      = (Float.Model.pack
        (roundWithAccuracy .binary64 .positive (m * m') (e + e') .exact)).unpack := by
    show (Float.Model.pack (mul .binary64 (unpacked x) (unpacked y))).unpack = _
    rw [heq, heq']
    rfl
  obtain ⟨hlog, hlog'⟩ := log2_mul h h'
  simp only [totalExponent_eq] at hl hh hl' hh'
  apply isBetween_of_round hproduct
  · omega
  · simp only [totalExponent_eq]
    omega
  · simp only [totalExponent_eq]
    omega
  · omega

/-- The quotient of two numbers. -/
theorem isBetween_div {low high low' high' : Int} {x y : Float} (hx : isBetween low high x = true)
    (hy : isBetween low' high' y = true) (hrange : -1000 ≤ low - high' ∧ high - low' < 999) :
  isBetween (low - high') (high - low' + 2) (x / y) = true
  := by
  obtain ⟨m, e, h, heq, hm, hl, hh⟩ := isBetween_iff.mp hx
  obtain ⟨m', e', h', heq', hm', hl', hh'⟩ := isBetween_iff.mp hy
  have htarget := targetExponent_eq (n := totalExponent m e - totalExponent m' e') (by omega)
  simp only [totalExponent_eq] at hl hh hl' hh' htarget
  -- the dividend is given 53 more digits than the divisor has
  generalize ht : min (e - e') (m.log2 + 1 + e - (m'.log2 + 1 + e') - 53) = t
  generalize hk : (e - e' - t).toNat = k
  have hquotient : unpacked (x / y) = (Float.Model.pack (roundWithAccuracy .binary64 .positive
      ((m <<< k) / m') t (accuracyOfFraction ((m <<< k) % m') m'))).unpack := by
    rw [unpacked_div, heq, heq', div]
    simp only [divCore, totalExponent_eq, htarget, ht, hk]
    rfl
  have hlog := log2_shiftLeft h k
  obtain ⟨hup, hdown⟩ := log2_div h' (by omega : m'.log2 + 1 ≤ (m <<< k).log2)
  rw [show high - low' + 2 = high - low' + 1 + 1 by omega]
  apply isBetween_of_round hquotient
  · omega
  · simp only [totalExponent_eq]
    omega
  · simp only [totalExponent_eq]
    omega
  · omega

/-- The sum of two numbers. -/
theorem isBetween_add {low high low' high' : Int} {x y : Float} (hx : isBetween low high x = true)
    (hy : isBetween low' high' y = true) (hrange : -1000 ≤ low ∧ max high high' < 999) :
  isBetween low (max high high' + 2) (x + y) = true
  := by
  obtain ⟨m, e, h, heq, hm, hl, hh⟩ := isBetween_iff.mp hx
  obtain ⟨m', e', h', heq', hm', hl', hh'⟩ := isBetween_iff.mp hy
  simp only [totalExponent_eq] at hl hh hl' hh'
  -- both mantissas are written with the smaller of the two exponents
  generalize ht : min e e' = t
  generalize hk : (e - t).toNat = k
  generalize hk' : (e' - t).toNat = k'
  have hlog := log2_shiftLeft h k
  have hlog' := log2_shiftLeft h' k'
  have hpos := shiftLeft_pos h k
  have hpos' := shiftLeft_pos h' k'
  obtain ⟨hup, hdown⟩ := log2_add_le_max hpos hpos'
  have hnormalize := normalize_natCast (by omega : 0 < m <<< k + m' <<< k') t .positive
  obtain ⟨n, e₁, hround, hn, hplace⟩ := round_eq .positive (by omega : 0 < m <<< k + m' <<< k')
    (by rw [totalExponent_eq]; omega : -1000 ≤ totalExponent (m <<< k + m' <<< k') t)
  have hsum : unpacked (x + y)
      = (Float.Model.pack (roundWithAccuracy .binary64 .positive n e₁ .exact)).unpack := by
    show (Float.Model.pack (add .binary64 (unpacked x) (unpacked y))).unpack = _
    rw [heq, heq', add]
    simp only [decreaseExponent, ht, hk, hk', Sign.apply]
    rw [← Int.natCast_add, hnormalize, hround]
  rw [totalExponent_eq (m <<< k + m' <<< k')] at hplace
  rw [show max high high' + 2 = max high high' + 1 + 1 by omega]
  apply isBetween_of_round hsum
  · omega
  · rw [hplace]
    omega
  · rw [hplace]
    omega
  · omega

/-- The square root of a number. -/
theorem isBetween_sqrt {low high : Int} {x : Float} (hx : isBetween low high x = true)
    (hrange : -1000 ≤ low ∧ 0 ≤ high ∧ high < 1000) :
  isBetween ((low + 1) / 2) ((high + 1) / 2 + 1) x.sqrt = true
  := by
  obtain ⟨m, e, h, heq, hm, hl, hh⟩ := isBetween_iff.mp hx
  have htarget := targetExponent_eq (n := (totalExponent m e + 1) / 2) (by omega)
  rw [totalExponent_eq] at hl hh htarget
  generalize ht : min (e / 2) ((m.log2 + 1 + e + 1) / 2 - 53) = t
  generalize hk : (e - 2 * t).toNat = k
  have hlog := log2_shiftLeft h k
  have hroot := log2_sqrt (shiftLeft_pos h k)
  have hsqrt : ∃ a, unpacked x.sqrt
      = (Float.Model.pack (roundWithAccuracy .binary64 .positive (m <<< k).sqrt t a)).unpack := by
    show ∃ a, (Float.Model.pack (sqrt .binary64 (unpacked x))).unpack = _
    have hediv (a : Int) : a.ediv 2 = a / 2 := rfl
    rw [heq, sqrt]
    simp only [sqrtCore, hediv, totalExponent_eq, htarget, ht, hk]
    exact ⟨_, rfl⟩
  obtain ⟨a, hsqrt⟩ := hsqrt
  apply isBetween_of_round hsqrt
  · omega
  · rw [totalExponent_eq]
    omega
  · rw [totalExponent_eq]
    omega
  · omega

/-! ### Counts -/

theorem isBetween_toFloat {n : Nat} (h : 0 < n) (hn : n < UInt64.size) :
  isBetween 1 65 n.toUInt64.toFloat = true
  := by
  have hlog : n.log2 < 64 := (Nat.log2_lt (Nat.ne_of_gt h)).mpr hn
  have hplace := totalExponent_eq n 0
  obtain ⟨m, e, hround, hm, heq⟩ := round_eq .positive h (by omega : -1000 ≤ totalExponent n 0)
  have hfloat : unpacked n.toUInt64.toFloat
      = (Float.Model.pack (roundWithAccuracy .binary64 .positive m e .exact)).unpack := by
    have hto : n.toUInt64.toNat = n := Nat.mod_eq_of_lt hn
    show (Float.Model.pack (normalize .binary64 n.toUInt64.toNat 0 .positive)).unpack = _
    rw [hto, normalize_natCast h, hround]
  rw [show (65 : Int) = 64 + 1 by rfl]
  apply isBetween_of_round hfloat hm <;> omega

/-- A whole number that does not fit in 53 digits, times a power of ten. -/
theorem unpacked_ofScientific {n k : Nat} (h : 0 < n) (hlarge : ¬ (n < 2 ^ 53 ∧ k ≤ 22))
    (hk : k ≤ 2 ^ 11) :
  unpacked (Float.ofScientific n false k)
    = (Float.Model.pack
      (roundWithAccuracy .binary64 .positive ((n * 10 ^ k) <<< 53) (-53) .exact)).unpack
  := by
  have hsmall : ¬ ((k : Int) < -((2 : Int) ^ 11 + n.log2)) := by omega
  have hmodel : unpacked (Float.ofModel (Float.Model.ofScientific n (Int.ofNat k)))
      = (Float.Model.pack (roundWithAccuracy .binary64 .positive (n <<< 53 * 10 ^ k) (-53 + 0)
        .exact)).unpack := by
    show (Float.Model.pack (ofScientific .binary64 n k)).unpack = _
    rw [ofScientific, dif_neg (Nat.ne_of_gt h), if_neg (Int.not_lt.mpr (by exact_mod_cast hk)),
      if_neg hsmall, if_pos (Int.natCast_nonneg k), mul]
    rfl
  rw [Float.ofScientific, dif_neg hlarge]
  rw [Nat.shiftLeft_eq, Nat.mul_right_comm, ← Nat.shiftLeft_eq, Int.add_zero] at hmodel
  exact hmodel

/-- A positive count of 64 bits. -/
theorem isBetween_ofNat {n : Nat} (h : 0 < n) (hn : n < UInt64.size) :
  isBetween 1 67 (Float.ofNat n) = true
  := by
  show isBetween 1 67 (Float.ofScientific n false 0) = true
  by_cases hsmall : n < 2 ^ 53 ∧ 0 ≤ 22
  · have hone : ∀ _ : 0 < Float.exactlyRepresentablePowersOfTen.size,
        isBetween 1 1 Float.exactlyRepresentablePowersOfTen[0] = true := by
      decide +kernel
    rw [Float.ofScientific, dif_pos hsmall]
    exact isBetween_mul (isBetween_toFloat h hn) (hone (by decide)) (by decide)
  · have hlog : n.log2 < 64 := (Nat.log2_lt (Nat.ne_of_gt h)).mpr hn
    have hshift := log2_shiftLeft h 53
    have hplace := totalExponent_eq (n <<< 53) (-53)
    have hround := unpacked_ofScientific h hsmall (by decide)
    rw [Nat.pow_zero, Nat.mul_one] at hround
    have hbetween : isBetween 1 (64 + 1) _ = true :=
      isBetween_of_round hround (by omega) (by omega) (by omega) (by omega)
    exact isBetween_mono hbetween (by decide) (by decide)

/-! ### Numbers that may be zero -/

/-- Zero, or a positive number with its leading digit between two places. -/
def IsWithin (low high : Int) (x : Float) : Prop :=
  unpacked x = .zero .positive ∨ isBetween low high x = true

theorem isFinite_of_isWithin {low high : Int} {x : Float} (h : IsWithin low high x) :
  x.isFinite = true
  := by
  show (unpacked x).isFinite = true
  rcases h with hzero | hbetween
  · rw [hzero]
    rfl
  · obtain ⟨m, e, h, heq, -⟩ := isBetween_iff.mp hbetween
    rw [heq]
    rfl

theorem isWithin_mono {low high low' high' : Int} {x : Float} (hx : IsWithin low high x)
    (hlow : low' ≤ low) (hhigh : high ≤ high') :
  IsWithin low' high' x
  := hx.imp_right fun h => isBetween_mono h hlow hhigh

/-- A count of 64 bits. -/
theorem isWithin_ofNat {n : Nat} (hn : n < UInt64.size) :
  IsWithin 1 67 (Float.ofNat n)
  := by
  rcases Nat.eq_zero_or_pos n with rfl | h
  · exact Or.inl unpacked_zero
  · exact Or.inr (isBetween_ofNat h hn)

/-- A number that is above zero is not zero. -/
theorem isBetween_of_gt {low high : Int} {x : Float} (hx : IsWithin low high x) (h : x > 0) :
  isBetween low high x = true
  := by
  rcases hx with hzero | hbetween
  · have hle : (0 : Float) ≤ 0 := (le_iff 0 0).mpr rfl
    exact absurd h (not_gt_of_isNothing (Or.inl ⟨_, hzero⟩) hle)
  · exact hbetween

theorem isWithin_div {low high low' high' : Int} {x y : Float} (hx : IsWithin low high x)
    (hy : isBetween low' high' y = true) (hrange : -1000 ≤ low - high' ∧ high - low' < 999) :
  IsWithin (low - high') (high - low' + 2) (x / y)
  := by
  rcases hx with hx | hx
  · obtain ⟨m, e, h, heq, -⟩ := isBetween_iff.mp hy
    apply Or.inl
    rw [unpacked_div, hx, heq]
    exact unpack_pack_zero _
  · exact Or.inr (isBetween_div hx hy hrange)

theorem isWithin_mul {low high low' high' : Int} {x y : Float} (hx : IsWithin low high x)
    (hy : IsWithin low' high' y) (hrange : -1000 < low + low' ∧ high + high' < 1000) :
  IsWithin (low + low' - 1) (high + high' + 1) (x * y)
  := by
  have hmul : unpacked (x * y)
      = (Float.Model.pack (mul .binary64 (unpacked x) (unpacked y))).unpack := rfl
  rcases hx with hx | hx
  · apply Or.inl
    rw [hmul, hx]
    rcases hy with hy | hy
    · rw [hy]
      exact unpack_pack_zero _
    · obtain ⟨m, e, h, heq, -⟩ := isBetween_iff.mp hy
      rw [heq]
      exact unpack_pack_zero _
  · rcases hy with hy | hy
    · obtain ⟨m, e, h, heq, -⟩ := isBetween_iff.mp hx
      apply Or.inl
      rw [hmul, hy, heq]
      exact unpack_pack_zero _
    · exact Or.inr (isBetween_mul hx hy hrange)

theorem isWithin_sqrt {low high : Int} {x : Float} (hx : IsWithin low high x)
    (hrange : -1000 ≤ low ∧ 0 ≤ high ∧ high < 1000) :
  IsWithin ((low + 1) / 2) ((high + 1) / 2 + 1) x.sqrt
  := by
  rcases hx with hx | hx
  · apply Or.inl
    show (Float.Model.pack (sqrt .binary64 (unpacked x))).unpack = _
    rw [hx]
    exact unpack_pack_zero _
  · exact Or.inr (isBetween_sqrt hx hrange)

/-- The bounds of a sum are wide enough for either number. -/
theorem isWithin_add {low high : Int} {x y : Float} (hx : IsWithin low high x)
    (hy : IsWithin low high y) (hrange : -1000 ≤ low ∧ high < 999) :
  IsWithin low (high + 2) (x + y)
  := by
  have hadd : unpacked (x + y)
      = (Float.Model.pack (add .binary64 (unpacked x) (unpacked y))).unpack := rfl
  -- the sum with zero is the other number
  have hother {z : Float} (hz : isBetween low high z = true)
      (hsum : unpacked (x + y) = (Float.Model.pack (unpacked z)).unpack) :
      IsWithin low (high + 2) (x + y) := by
    rw [pack_unpacked hz hrange.1 (by omega)] at hsum
    have hbetween := isBetween_mono hz (Int.le_refl low) (by omega : high ≤ high + 2)
    rw [isBetween, ← hsum, ← isBetween] at hbetween
    exact Or.inr hbetween
  rcases hx with hx | hx <;> rcases hy with hy | hy
  · apply Or.inl
    rw [hadd, hx, hy]
    exact unpack_pack_zero _
  · obtain ⟨m, e, h, heq, -⟩ := isBetween_iff.mp hy
    apply hother hy
    rw [hadd, hx, heq]
    rfl
  · obtain ⟨m, e, h, heq, -⟩ := isBetween_iff.mp hx
    apply hother hx
    rw [hadd, hy, heq]
    rfl
  · have hbetween := isBetween_add hx hy (by omega)
    rw [Int.max_self] at hbetween
    exact Or.inr hbetween

end CorpusAudit
