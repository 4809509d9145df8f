import CorpusAudit.Decimal.Shortest
import Mathlib.Tactic.Ring

/-!
# Facts about shortest decimals

The shortest decimal of a number is zero only if the number is.
-/

namespace CorpusAudit.Decimal

theorem Interval.contains_zero {i : Interval} (h : 0 < i.low) :
  i.contains 0 = false
  := by
  rw [contains]
  split
  · simp [Nat.ne_of_gt h]
  · simp

theorem Interval.low_rescale_pos {i : Interval} (h : 0 < i.low) (e : Int) :
  0 < (i.rescale e).low
  := Nat.mul_pos h (Nat.pow_pos (by decide))

theorem Binary.low_interval_pos {x : Binary} (h : x.significand ≠ 0) :
  0 < x.interval.low
  := by
  apply Nat.mul_pos
  · split <;> omega
  · exact Nat.pow_pos (by decide)

/-- A decimal is found only in the interval, which zero is not in. -/
theorem Interval.digits_search_ne_zero {i : Interval} (h : 0 < i.low) {tie : Tie} {magnitude : Int}
    {fuel digits : Nat} {s : Scaled} (hs : i.search tie magnitude fuel digits = some s) :
  s.digits ≠ 0
  := by
  induction fuel generalizing digits with
  | zero => simp [search] at hs
  | succ fuel ih =>
    simp only [search] at hs
    split at hs
    · next n hn =>
      simp only [Option.some.injEq] at hs
      subst hs
      rintro rfl
      have := contains_of_nearest? hn
      rw [contains_zero (low_rescale_pos h _)] at this
      exact absurd this (by simp)
    · exact ih hs

theorem digits_stripZeros_ne_zero {s : Scaled} (h : s.digits ≠ 0) (fuel : Nat) :
  (stripZeros fuel s).digits ≠ 0
  := by
  induction fuel generalizing s with
  | zero => exact h
  | succ fuel ih =>
    rw [stripZeros]
    split
    · next hzero =>
      apply ih
      simp only
      omega
    · exact h

/-- Only zero is written with the digit zero alone. -/
theorem Binary.digits_shortest_ne_zero {x : Binary} (h : x.significand ≠ 0) (tie : Tie) :
  (x.shortest tie).digits ≠ 0
  := by
  rw [shortest, if_neg h]
  simp only
  split
  · next s hs =>
    apply digits_stripZeros_ne_zero
    exact Interval.digits_search_ne_zero (low_interval_pos h) hs
  · have h2 : 0 < Nat.pow 2 x.exponent.toNat := Nat.pow_pos (by decide)
    have h5 : 0 < Nat.pow 5 (-x.exponent).toNat := Nat.pow_pos (by decide)
    have := Nat.mul_pos (Nat.mul_pos (Nat.pos_of_ne_zero h) h2) h5
    simp only
    omega

/-- The exponent of zero is zero. -/
theorem Binary.exponent_shortest {x : Binary} {tie : Tie} (h : (x.shortest tie).digits = 0) :
  (x.shortest tie).exponent = 0
  := by
  by_cases hx : x.significand = 0
  · rw [shortest, if_pos hx]
  · exact absurd h (digits_shortest_ne_zero hx tie)

/-! ### The size of shortest decimals -/

/-- A decimal that is at most the quotient `n / d`. -/
def Scaled.AtMost (s : Scaled) (n d : Nat) : Prop :=
  s.digits * 10 ^ s.exponent.toNat * d ≤ n * 10 ^ (-s.exponent).toNat

theorem Interval.atMost_search {i : Interval} {tie : Tie} {magnitude : Int} {fuel digits : Nat}
    {s : Scaled} (hs : i.search tie magnitude fuel digits = some s) :
  s.AtMost i.high i.den
  := by
  induction fuel generalizing digits with
  | zero => simp [search] at hs
  | succ fuel ih =>
    simp only [search] at hs
    split at hs
    · next n hn =>
      simp only [Option.some.injEq] at hs
      subst hs
      have hhigh : n * ((i.rescale (magnitude - digits)).den)
          ≤ (i.rescale (magnitude - digits)).high := by
        have hcontains := contains_of_nearest? hn
        rw [contains] at hcontains
        split at hcontains
        · simp only [Bool.and_eq_true, decide_eq_true_eq] at hcontains
          exact hcontains.2
        · simp only [Bool.and_eq_true, decide_eq_true_eq] at hcontains
          exact Nat.le_of_lt hcontains.2
      rw [Scaled.AtMost, Nat.mul_assoc, Nat.mul_comm (10 ^ _)]
      exact hhigh
    · exact ih hs

/-- Moving a zero to the exponent does not change the decimal. -/
theorem atMost_stripZeros {s : Scaled} {n d : Nat} (h : s.AtMost n d) (fuel : Nat) :
  (stripZeros fuel s).AtMost n d
  := by
  induction fuel generalizing s with
  | zero => exact h
  | succ fuel ih =>
    rw [stripZeros]
    split
    · next hzero =>
      apply ih
      have hten : s.digits = s.digits / 10 * 10 := by omega
      rw [Scaled.AtMost, hten] at h
      rw [Scaled.AtMost]
      generalize s.digits / 10 = q at *
      rcases Int.lt_or_le s.exponent 0 with hneg | hpos
      · have hfirst : (s.exponent + 1).toNat = 0 := by omega
        have hsecond : (-s.exponent).toNat = (-(s.exponent + 1)).toNat + 1 := by omega
        have hthird : s.exponent.toNat = 0 := by omega
        rw [hsecond, hthird, Nat.pow_succ] at h
        simp only [hfirst]
        apply Nat.le_of_mul_le_mul_right _ (by decide : 0 < 10)
        calc q * 10 ^ 0 * d * 10 = q * 10 * 10 ^ 0 * d := by ring
          _ ≤ n * (10 ^ (-(s.exponent + 1)).toNat * 10) := h
          _ = n * 10 ^ (-(s.exponent + 1)).toNat * 10 := by ring
      · have hfirst : (s.exponent + 1).toNat = s.exponent.toNat + 1 := by omega
        have hsecond : (-s.exponent).toNat = (-(s.exponent + 1)).toNat := by omega
        rw [hsecond] at h
        simp only [hfirst]
        calc q * 10 ^ (s.exponent.toNat + 1) * d = q * 10 * 10 ^ s.exponent.toNat * d := by ring
          _ ≤ n * 10 ^ (-(s.exponent + 1)).toNat := h
    · exact h

/-- The shortest decimal is below the upper end of the interval. -/
theorem Binary.atMost_shortest {x : Binary} (h : x.significand ≠ 0) (tie : Tie) :
  (x.shortest tie).AtMost x.interval.high x.interval.den
  := by
  rw [shortest, if_neg h]
  simp only
  split
  · next s hs => exact atMost_stripZeros (Interval.atMost_search hs) 20
  · have hten : 10 ^ (-x.exponent).toNat = 2 ^ (-x.exponent).toNat * 5 ^ (-x.exponent).toNat :=
      Nat.mul_pow 2 5 _
    have hle : 4 * x.significand ≤ 4 * x.significand + 2 := Nat.le_add_right _ _
    have hfirst : (-((-x.exponent).toNat : Int)).toNat = 0 := by omega
    have hsecond : (- -((-x.exponent).toNat : Int)).toNat = (-x.exponent).toNat := by omega
    simp only [Scaled.AtMost, interval, hfirst, hsecond, Nat.pow_eq, hten]
    calc _ = 4 * x.significand * (2 ^ x.exponent.toNat * (2 ^ (-x.exponent).toNat
            * 5 ^ (-x.exponent).toNat)) := by ring
      _ ≤ (4 * x.significand + 2) * (2 ^ x.exponent.toNat * (2 ^ (-x.exponent).toNat
            * 5 ^ (-x.exponent).toNat)) := Nat.mul_le_mul_right _ hle
      _ = _ := by ring

namespace Scaled.AtMost

variable {s : Scaled} {n d : Nat}

/-- The first digit of a decimal below a power of ten stands at a place below that power. -/
theorem place_le (h : s.AtMost n d) (hdigits : s.digits ≠ 0) {bound : Nat}
    (hbound : n < 10 ^ bound * d) :
  s.exponent + (Nat.toDigits 10 s.digits).length ≤ bound
  := by
  have hbelow : s.digits * 10 ^ s.exponent.toNat < 10 ^ (bound + (-s.exponent).toNat) := by
    apply Nat.lt_of_mul_lt_mul_right (a := d)
    calc s.digits * 10 ^ s.exponent.toNat * d ≤ n * 10 ^ (-s.exponent).toNat := h
      _ < 10 ^ bound * d * 10 ^ (-s.exponent).toNat :=
        Nat.mul_lt_mul_of_pos_right hbound (Nat.pow_pos (by decide))
      _ = 10 ^ (bound + (-s.exponent).toNat) * d := by
        rw [Nat.pow_add]
        ring
  rcases Int.lt_or_le s.exponent bound with hsmall | hlarge
  · have hplaces : (bound - s.exponent).toNat + s.exponent.toNat
        = bound + (-s.exponent).toNat := by
      omega
    have hlength : (Nat.toDigits 10 s.digits).length ≤ (bound - s.exponent).toNat := by
      rw [Nat.length_toDigits_le_iff (by decide) (by omega)]
      apply Nat.lt_of_mul_lt_mul_right (a := 10 ^ s.exponent.toNat)
      rwa [← Nat.pow_add, hplaces]
    omega
  · have hone : 1 * 10 ^ bound ≤ s.digits * 10 ^ s.exponent.toNat :=
      Nat.mul_le_mul (Nat.pos_of_ne_zero hdigits)
        (Nat.pow_le_pow_right (by decide) (by omega))
    rw [show bound + (-s.exponent).toNat = bound by omega] at hbelow
    omega

/-- The leading digits alone make a smaller number. -/
theorem le_of_leading (h : s.AtMost n 1) {digits dropped : Nat}
    (hdigits : digits * 10 ^ dropped ≤ s.digits) (hpower : 0 ≤ s.exponent + dropped) :
  digits * 10 ^ (s.exponent + dropped).toNat ≤ n
  := by
  apply Nat.le_of_mul_le_mul_right _ (Nat.pow_pos (by decide) : 0 < 10 ^ (-s.exponent).toNat)
  calc digits * 10 ^ (s.exponent + dropped).toNat * 10 ^ (-s.exponent).toNat
      = digits * 10 ^ dropped * 10 ^ s.exponent.toNat := by
        rw [Nat.mul_assoc, ← Nat.pow_add, Nat.mul_assoc, ← Nat.pow_add]
        congr 2
        omega
    _ ≤ s.digits * 10 ^ s.exponent.toNat := Nat.mul_le_mul_right _ hdigits
    _ = s.digits * 10 ^ s.exponent.toNat * 1 := (Nat.mul_one _).symm
    _ ≤ n * 10 ^ (-s.exponent).toNat := h

end Scaled.AtMost

end CorpusAudit.Decimal
