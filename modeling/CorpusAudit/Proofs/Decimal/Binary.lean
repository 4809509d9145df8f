import CorpusAudit.Decimal.Binary
import CorpusAudit.Proofs.Float.Rounding

/-!
# The bits of floating-point numbers

A number whose arithmetic is that of a finite one has the bits of one, so its magnitude
that is read off them is at most that of the largest number.
-/

namespace CorpusAudit

open Float.Model.UnpackedFloat
open Decimal (Binary)

theorem toNat_mantissaBits (x : Float) :
  (mantissaBits x).toNat = x.toBits.toNat % Decimal.fractions
  := by
  show (x.toModel.toBits.toBitVec.extractLsb 51 0).toNat
    = x.toModel.toBits.toNat % 4503599627370496
  rw [BitVec.extractLsb_toNat]
  simp [Nat.shiftRight_zero]

theorem toNat_exponentBits (x : Float) :
  (exponentBits x).toNat = x.toBits.toNat / Decimal.fractions % Decimal.exponents
  := by
  show (x.toModel.toBits.toBitVec.extractLsb 62 52).toNat
    = x.toModel.toBits.toNat / 4503599627370496 % 2048
  rw [BitVec.extractLsb_toNat]
  simp [Nat.shiftRight_eq_div_pow]

/-- The significand and the exponent of a finite number are those of the largest one at
most. -/
theorem ofFloat_le_of_isFinite {x : Float} (h : x.isFinite = true) :
  (Binary.ofFloat x).significand < 2 ^ 53 ∧ (Binary.ofFloat x).exponent ≤ 971
  := by
  have hfraction := (mantissaBits x).isLt
  have hexponent := (exponentBits x).isLt
  have htop : (exponentBits x).toNat ≠ 2047 := by
    intro heq
    exact exponentBits_ne_of_isFinite h (BitVec.eq_of_toNat_eq heq)
  rw [toNat_mantissaBits] at hfraction
  rw [toNat_exponentBits] at hexponent htop
  have hfractions : Decimal.fractions = 2 ^ 52 := rfl
  simp only [Binary.ofFloat]
  split
  · exact ⟨by simp only; omega, by simp only; omega⟩
  · exact ⟨by simp only; omega, by simp only; omega⟩

end CorpusAudit
