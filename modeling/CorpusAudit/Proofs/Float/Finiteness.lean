import CorpusAudit.Proofs.Float.Magnitude

/-!
# Operations with finite results

A number is finite if the place of its leading digit is bounded (`IsBelow`), however small
the number is.  Negation keeps that place, and division by a number from one on moves it
up by one at most; a product of finite numbers is finite unless it is infinite.
-/

namespace CorpusAudit

open Float.Model (totalExponent Format)
open Float.Model.UnpackedFloat

/-- Zero, or a number whose leading digit stands at most at a place. -/
def IsBelow (n : Int) (x : Float) : Prop :=
  (∃ s, unpacked x = .zero s) ∨ ∃ s m e h, unpacked x = .finite s m e h ∧ totalExponent m e ≤ n

theorem isFinite_of_isBelow {n : Int} {x : Float} (h : IsBelow n x) :
  x.isFinite = true
  := by
  show (unpacked x).isFinite = true
  rcases h with ⟨s, hzero⟩ | ⟨s, m, e, h, hfinite, -⟩
  · rw [hzero]
    rfl
  · rw [hfinite]
    rfl

theorem isBelow_of_isWithin {low high : Int} {x : Float} (h : IsWithin low high x) :
  IsBelow high x
  := by
  rcases h with hzero | hbetween
  · exact Or.inl ⟨_, hzero⟩
  · obtain ⟨m, e, h, heq, -, -, hle⟩ := isBetween_iff.mp hbetween
    exact Or.inr ⟨_, m, e, h, heq, hle⟩

/-! ### Packing -/

/-- The place of the leading digit of a number is read off its exponent. -/
theorem isBelow_of_packComponents {s : Sign} {e : BitVec 11} {m : BitVec 52} {x : Float}
    (hx : unpacked x = unpack .binary64 (packComponents .binary64 s e m)) (he : e.toNat < 2047) :
  IsBelow (e.toNat - 1022) x
  := by
  have hm := m.isLt
  have hones : e ≠ -1#11 := by
    rintro rfl
    exact absurd he (by decide)
  rw [unpack] at hx
  simp only [unpackMantissa_packComponents, unpackExponent_packComponents, if_neg hones] at hx
  split at hx
  · split at hx
    · exact Or.inl ⟨_, hx⟩
    · next hzero hmantissa =>
      refine Or.inr ⟨_, _, _, _, hx, ?_⟩
      have hpos : m.toNat ≠ 0 := fun h => hmantissa (BitVec.eq_of_toNat_eq h)
      have hlog := (Nat.log2_lt hpos).mpr hm
      have hbias : ((Format.binary64.exponentBias : Nat) : Int) = 1023 := rfl
      rw [totalExponent_eq, hbias]
      omega
  · refine Or.inr ⟨_, _, _, _, hx, ?_⟩
    have hlog : (1#1 ++ m).toNat.log2 = 52 := by
      rw [toNat_one_append, Nat.log2_eq_iff (by omega)]
      omega
    have hbias : ((Format.binary64.exponentBias : Nat) : Int) = 1023 := rfl
    rw [totalExponent_eq, hlog, hbias]
    omega

/-- What is packed keeps the place of its leading digit, or becomes one of the smallest
numbers. -/
theorem isBelow_of_pack {n : Int} {s : Sign} {m : Nat} {e : Int} {h : 0 < m} {x : Float}
    (hx : unpacked x = (Float.Model.pack (.finite s m e h)).unpack) (he : e ≤ 971)
    (hplace : totalExponent m e ≤ n) (hn : -1022 ≤ n) :
  IsBelow n x
  := by
  have hmono {k : Int} (hk : k ≤ n) (hbelow : IsBelow k x) : IsBelow n x := by
    refine hbelow.imp_right ?_
    rintro ⟨s, m, e, h, heq, hle⟩
    exact ⟨s, m, e, h, heq, Int.le_trans hle hk⟩
  have hrange : ¬ 2 ^ 11 ≤ (e + 1023 + 52).toNat + 1 := by omega
  have hunpack : (Float.Model.pack (.finite s m e h)).unpack
      = unpack .binary64 (if m.log2 + 1 = 53
        then packComponents .binary64 s (BitVec.ofNat 11 (e + 1023 + 52).toNat) (BitVec.ofNat 52 m)
        else packComponents .binary64 s 0#11 (BitVec.ofNat 52 m)) := by
    show unpack .binary64 (pack .binary64 (.finite s m e h)) = _
    rw [pack]
    exact congrArg _ (if_neg hrange)
  rw [hunpack] at hx
  rw [totalExponent_eq] at hplace
  split at hx
  · have hfield : (BitVec.ofNat 11 (e + 1023 + 52).toNat).toNat = (e + 1023 + 52).toNat := by
      rw [BitVec.toNat_ofNat]
      omega
    have hbelow := isBelow_of_packComponents hx (by omega)
    rw [hfield] at hbelow
    exact hmono (by omega) hbelow
  · exact hmono (by simpa using hn) (isBelow_of_packComponents hx (by decide))

/-- A finite number has 53 digits at most, and its exponent is that of the largest number at
most. -/
theorem lt_of_unpacked {x : Float} {s : Sign} {m : Nat} {e : Int} {h : 0 < m}
    (hx : unpacked x = .finite s m e h) :
  m < 2 ^ 53 ∧ e ≤ 971
  := by
  have hfinite : x.isFinite = true := isFinite_of_isBelow (Or.inr ⟨s, m, e, h, hx, Int.le_refl _⟩)
  have hones := exponentBits_ne_of_isFinite hfinite
  have htop : (exponentBits x).toNat ≠ 2047 := by
    intro heq
    exact hones (BitVec.eq_of_toNat_eq heq)
  have hfraction := (mantissaBits x).isLt
  have hfield := (exponentBits x).isLt
  have hone := toNat_one_append (mantissaBits x)
  have hbits : m = (mantissaBits x).toNat ∧ e = -1074
      ∨ m = (1#1 ++ mantissaBits x).toNat ∧ e = (exponentBits x).toNat - 1075 := by
    simp only [unpacked, Float.Model.unpack, unpack] at hx
    split at hx
    · next hlast => exact absurd hlast hones
    · split at hx
      · next hzero =>
        have hnone : exponentBits x = 0#11 := hzero
        split at hx
        · simp at hx
        · simp only [finite.injEq] at hx
          refine Or.inl ⟨hx.2.1.symm, ?_⟩
          rw [← hx.2.2]
          show ((exponentBits x).toNat : Int) - (1023 + 52) + 1 = -1074
          rw [hnone]
          rfl
      · simp only [finite.injEq] at hx
        refine Or.inr ⟨hx.2.1.symm, ?_⟩
        rw [← hx.2.2]
        rfl
  omega

/-! ### Negation -/

theorem isFinite_neg {x : Float} (h : x.isFinite = true) :
  (-x).isFinite = true
  := by
  have hneg : unpacked (-x) = (Float.Model.pack (neg (unpacked x))).unpack := rfl
  have hspecial : (unpacked x).isFinite = true := h
  cases hx : unpacked x with
  | notANumber => simp [hx, Float.Model.UnpackedFloat.isFinite] at hspecial
  | infinity s => simp [hx, Float.Model.UnpackedFloat.isFinite] at hspecial
  | zero s =>
    rw [hx, neg, unpack_pack_zero] at hneg
    exact isFinite_of_isBelow (n := 0) (Or.inl ⟨_, hneg⟩)
  | finite s m e hm =>
    obtain ⟨hlt, hexponent⟩ := lt_of_unpacked hx
    have hlog := (Nat.log2_lt (Nat.ne_of_gt hm)).mpr hlt
    have hplace := totalExponent_eq m e
    rw [hx, neg] at hneg
    exact isFinite_of_isBelow (isBelow_of_pack (n := 1024) hneg hexponent (by omega) (by decide))

/-! ### Quotients -/

/-- Cutting off digits leaves the leading digit where it is, except among the smallest
numbers. -/
theorem totalExponent_shiftToTargetExponent_le (m : Nat) (e : Int) (a : Accuracy) :
  totalExponent (shiftToTargetExponent .binary64 m e a).1.mantissa
      (shiftToTargetExponent .binary64 m e a).2
    ≤ max (totalExponent m e) (-1073)
  := by
  have htarget : Format.binary64.targetExponent (totalExponent m e)
      = max (totalExponent m e - 53) (-1074) := rfl
  rw [shiftToTargetExponent, htarget, shiftToExponent]
  generalize hk : (max (totalExponent m e - 53) (-1074) - e).toNat = k
  simp only [mantissa_shiftRight, mantissa_ofMantissaAndAccuracy]
  have hlog : (m / 2 ^ k).log2 = m.log2 - k := by
    rw [Nat.log2_eq_log_two, Nat.log_div_base_pow, ← Nat.log2_eq_log_two]
  rw [totalExponent_eq, hlog]
  rw [totalExponent_eq] at hk ⊢
  omega

theorem log2_succ_le (n : Nat) :
  (n + 1).log2 ≤ n.log2 + 1
  := by
  apply Nat.le_of_lt_succ
  rw [Nat.log2_lt (Nat.succ_ne_zero n), Nat.pow_succ]
  have hlt : n < 2 ^ (n.log2 + 1) := Nat.lt_log2_self
  omega

/-- Rounding moves the leading digit up by one at most, except among the smallest numbers. -/
theorem roundWithAccuracy_isBelow (s : Sign) {m : Nat} {e n : Int} (a : Accuracy)
    (hplace : totalExponent m e ≤ n) (hn : -1000 ≤ n) :
  roundWithAccuracy .binary64 s m e a = .zero s
    ∨ ∃ m' e' h, roundWithAccuracy .binary64 s m e a = .finite s m' e' h
      ∧ totalExponent m' e' ≤ n + 1
  := by
  rw [roundWithAccuracy]
  have hfirst := totalExponent_shiftToTargetExponent_le m e a
  generalize shiftToTargetExponent .binary64 m e a = first at *
  obtain ⟨kept, e₁⟩ := first
  simp only at hfirst ⊢
  have hrounded : kept.roundedMantissa.log2 ≤ kept.mantissa.log2 + 1 := by
    rcases roundedMantissa_cases kept with h | h
    · rw [h]
      exact Nat.le_succ _
    · rw [h]
      exact log2_succ_le _
  have hlast := totalExponent_shiftToTargetExponent_le kept.roundedMantissa e₁ .exact
  generalize shiftToTargetExponent .binary64 kept.roundedMantissa e₁ .exact = last at *
  obtain ⟨final, e₂⟩ := last
  simp only at hlast ⊢
  rw [totalExponent_eq kept.mantissa] at hfirst
  rw [totalExponent_eq kept.roundedMantissa] at hlast
  split
  · exact Or.inl rfl
  · next hne => exact Or.inr ⟨_, _, Nat.pos_of_ne_zero hne, rfl, by omega⟩

/-- A number divided by one that is not below one. -/
theorem isBelow_div {n : Int} {x y : Float} (hx : IsBelow n x) (hy : isBetween 1 1024 y = true)
    (hn : -1000 ≤ n ∧ n < 971) :
  IsBelow (n + 1) (x / y)
  := by
  obtain ⟨m', e', h', heq', hm', hl', -⟩ := isBetween_iff.mp hy
  rcases hx with ⟨s, hzero⟩ | ⟨s, m, e, h, heq, hplace⟩
  · refine Or.inl ⟨s / .positive, ?_⟩
    rw [unpacked_div, hzero, heq']
    exact unpack_pack_zero _
  · simp only [totalExponent_eq] at hplace hl'
    have htarget : Format.binary64.targetExponent (totalExponent m e - totalExponent m' e')
        = max (m.log2 + 1 + e - (m'.log2 + 1 + e') - 53) (-1074) := rfl
    generalize ht : min (e - e') (max (m.log2 + 1 + e - (m'.log2 + 1 + e') - 53) (-1074)) = t
    generalize hk : (e - e' - t).toNat = k
    have hquotient : unpacked (x / y) = (Float.Model.pack (roundWithAccuracy .binary64
        (s / .positive) ((m <<< k) / m') t (accuracyOfFraction ((m <<< k) % m') m'))).unpack := by
      rw [unpacked_div, heq, heq', div]
      simp only [divCore, htarget, ht, hk]
    have hlog : ((m <<< k) / m').log2 ≤ m.log2 + k - 52 := by
      rcases Nat.eq_zero_or_pos ((m <<< k) / m') with hnone | hsome
      · simp [hnone]
      · have hshift := log2_shiftLeft h k
        have hproduct := (log2_mul hsome h').1
        have hle : (m <<< k / m' * m').log2 ≤ (m <<< k).log2 :=
          (Nat.le_log2 (Nat.ne_of_gt (shiftLeft_pos h k))).mpr (Nat.le_trans
            (Nat.log2_self_le (Nat.ne_of_gt (Nat.mul_pos hsome h'))) (Nat.div_mul_le_self _ _))
        omega
    have hround := roundWithAccuracy_isBelow (s / .positive) (n := n)
      (accuracyOfFraction ((m <<< k) % m') m')
      (by rw [totalExponent_eq]; omega : totalExponent ((m <<< k) / m') t ≤ n) hn.1
    rcases hround with hzero | ⟨m'', e'', h'', hround, hplace''⟩
    · rw [hzero, unpack_pack_zero] at hquotient
      exact Or.inl ⟨_, hquotient⟩
    · rw [hround] at hquotient
      have hexponent := totalExponent_eq m'' e''
      exact isBelow_of_pack hquotient (by omega) hplace'' (by omega)

/-! ### Products -/

/-- A number that is too large becomes infinite when it is packed. -/
theorem isFinite_of_pack {s : Sign} {m : Nat} {e : Int} {h : 0 < m} {x : Float}
    (hx : unpacked x = (Float.Model.pack (.finite s m e h)).unpack) (hinf : x.isInf = false) :
  x.isFinite = true
  := by
  rcases Int.lt_or_le 971 e with hlarge | hsmall
  · have hrange : 2 ^ 11 ≤ (e + 1023 + 52).toNat + 1 := by omega
    have hpack : pack .binary64 (.finite s m e h) = packedInfinity .binary64 s := by
      rw [pack]
      exact if_pos hrange
    have hinfinite : unpacked x = .infinity s := by
      rw [hx]
      show unpack .binary64 (pack .binary64 (.finite s m e h)) = .infinity s
      rw [hpack]
      cases s <;> rfl
    have hspecial : (unpacked x).isInf = false := hinf
    rw [hinfinite] at hspecial
    simp [Float.Model.UnpackedFloat.isInf] at hspecial
  · apply isFinite_of_isBelow
    exact isBelow_of_pack hx hsmall (Int.le_max_left _ _) (Int.le_max_right _ _)

/-- A product of finite numbers is finite or infinite. -/
theorem isFinite_mul_of_isInf {x y : Float} (hx : x.isFinite = true) (hy : y.isFinite = true)
    (hinf : (x * y).isInf = false) :
  (x * y).isFinite = true
  := by
  have hmul : unpacked (x * y)
      = (Float.Model.pack (mul .binary64 (unpacked x) (unpacked y))).unpack := rfl
  have hspecial : (unpacked x).isFinite = true := hx
  have hspecial' : (unpacked y).isFinite = true := hy
  have hzero {s : Sign} (h : mul .binary64 (unpacked x) (unpacked y) = .zero s) :
      (x * y).isFinite = true := by
    rw [h, unpack_pack_zero] at hmul
    exact isFinite_of_isBelow (n := 0) (Or.inl ⟨s, hmul⟩)
  cases hu : unpacked x with
  | notANumber => simp [hu, Float.Model.UnpackedFloat.isFinite] at hspecial
  | infinity s => simp [hu, Float.Model.UnpackedFloat.isFinite] at hspecial
  | zero s =>
    cases hv : unpacked y with
    | notANumber => simp [hv, Float.Model.UnpackedFloat.isFinite] at hspecial'
    | infinity s' => simp [hv, Float.Model.UnpackedFloat.isFinite] at hspecial'
    | zero s' => exact hzero (by rw [hu, hv]; rfl)
    | finite s' m' e' h' => exact hzero (by rw [hu, hv]; rfl)
  | finite s m e h =>
    cases hv : unpacked y with
    | notANumber => simp [hv, Float.Model.UnpackedFloat.isFinite] at hspecial'
    | infinity s' => simp [hv, Float.Model.UnpackedFloat.isFinite] at hspecial'
    | zero s' => exact hzero (by rw [hu, hv]; rfl)
    | finite s' m' e' h' =>
      have hround : mul .binary64 (unpacked x) (unpacked y)
          = roundWithAccuracy .binary64 (s * s') (m * m') (e + e') .exact := by
        rw [hu, hv]
        rfl
      rcases roundWithAccuracy_isBelow (s * s') .exact
        (Int.le_max_left (totalExponent (m * m') (e + e')) (-1000)) (Int.le_max_right _ _)
        with hnone | ⟨m'', e'', h'', hsome, -⟩
      · exact hzero (hround.trans hnone)
      · rw [hround, hsome] at hmul
        exact isFinite_of_pack hmul hinf

end CorpusAudit
