import Mathlib

/-!
# Facts about floating-point numbers

What is needed of the arithmetic of floating-point numbers, from their model as signed
numbers with a mantissa and an exponent.
-/

namespace CorpusAudit

open Float.Model (UnpackedFloat)

/-- The number that a floating-point number stands for. -/
def unpacked (x : Float) : UnpackedFloat :=
  x.toModel.unpack

theorem unpacked_div (x y : Float) :
  unpacked (x / y)
    = (Float.Model.pack (UnpackedFloat.div .binary64 (unpacked x) (unpacked y))).unpack
  := rfl

theorem unpack_pack_zero (s : UnpackedFloat.Sign) :
  (Float.Model.pack (.zero s)).unpack = .zero s
  := by
  cases s <;> rfl

theorem unpack_pack_notANumber :
  (Float.Model.pack .notANumber).unpack = .notANumber
  := rfl

theorem unpacked_zero :
  unpacked (Float.ofNat 0) = .zero .positive
  := by
  rfl

theorem le_iff (x y : Float) :
  x ≤ y ↔ (unpacked x).le (unpacked y) = true
  := by
  constructor
  · intro h
    have hmodel : decide (x.toModel ≤ y.toModel) = true := h
    exact of_decide_eq_true hmodel
  · intro h
    have hmodel : x.toModel ≤ y.toModel := h
    exact decide_eq_true hmodel

theorem lt_iff (x y : Float) :
  x < y ↔ (unpacked x).lt (unpacked y) = true
  := by
  constructor
  · intro h
    have hmodel : decide (x.toModel < y.toModel) = true := h
    exact of_decide_eq_true hmodel
  · intro h
    have hmodel : x.toModel < y.toModel := h
    exact decide_eq_true hmodel

theorem isFinite_iff (x : Float) :
  x.isFinite = true ↔ x.isNaN = false ∧ x.isInf = false
  := by
  simp only [Float.isFinite, Float.isNaN, Float.isInf, Float.Model.isFinite, Float.Model.isNaN,
    Float.Model.isInf]
  cases x.toModel.unpack <;>
    simp [UnpackedFloat.isFinite, UnpackedFloat.isNaN, UnpackedFloat.isInf]

/-! ### Bits -/

/-- The stored digits of a number. -/
def mantissaBits (x : Float) : BitVec 52 :=
  @UnpackedFloat.unpackMantissa .binary64 x.toModel.toBits.toBitVec

/-- The stored exponent of a number. -/
def exponentBits (x : Float) : BitVec 11 :=
  @UnpackedFloat.unpackExponent .binary64 x.toModel.toBits.toBitVec

/-- The largest stored exponent is kept for what is not finite. -/
theorem exponentBits_ne_of_isFinite {x : Float} (h : x.isFinite = true) :
  exponentBits x ≠ -1#11
  := by
  intro hones
  have hspecial : (unpacked x).isFinite = true := h
  simp only [unpacked, Float.Model.unpack, UnpackedFloat.unpack] at hspecial
  split at hspecial
  · split at hspecial <;> simp [UnpackedFloat.isFinite] at hspecial
  · next hne => exact hne hones

/-! ### Nothing -/

/-- A number that stands for nothing: zero, or no number. -/
def IsNothing (x : Float) : Prop :=
  (∃ s, unpacked x = .zero s) ∨ unpacked x = .notANumber

theorem isNothing_zero :
  IsNothing 0
  := Or.inl ⟨.positive, unpacked_zero⟩

/-- A part of nothing is nothing. -/
theorem isNothing_zero_div (x : Float) :
  IsNothing (Float.ofNat 0 / x)
  := by
  rw [IsNothing, unpacked_div, unpacked_zero]
  cases unpacked x with
  | notANumber => exact Or.inr unpack_pack_notANumber
  | infinity s => exact Or.inl ⟨_, unpack_pack_zero _⟩
  | zero s => exact Or.inr unpack_pack_notANumber
  | finite s m e hm => exact Or.inl ⟨_, unpack_pack_zero _⟩

/-- Nothing is above no limit from zero on. -/
theorem not_gt_of_isNothing {x limit : Float} (hx : IsNothing x) (hlimit : 0 ≤ limit) :
  ¬ x > limit
  := by
  have hle : (UnpackedFloat.zero .positive).le (unpacked limit) = true := by
    rw [← unpacked_zero]
    exact (le_iff 0 limit).mp hlimit
  intro hgt
  have hlt := (lt_iff _ _).mp hgt
  rcases hx with ⟨s, hs⟩ | hnan
  · rw [hs] at hlt
    cases h : unpacked limit with
    | notANumber => simp [h, UnpackedFloat.lt, UnpackedFloat.compare] at hlt
    | zero s => simp [h, UnpackedFloat.lt, UnpackedFloat.compare] at hlt
    | infinity s =>
      cases s <;> simp [h, UnpackedFloat.lt, UnpackedFloat.le, UnpackedFloat.compare] at hlt hle
    | finite s m e hm =>
      cases s <;> simp [h, UnpackedFloat.lt, UnpackedFloat.le, UnpackedFloat.compare] at hlt hle
  · rw [hnan] at hlt
    cases h : unpacked limit <;>
      simp [h, UnpackedFloat.lt, UnpackedFloat.compare] at hlt

end CorpusAudit
