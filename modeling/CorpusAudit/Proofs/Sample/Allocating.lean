import CorpusAudit.Sample.Allocation
import Mathlib

/-!
# Facts about allocations

How many records are drawn of a category is the exact part of them, rounded, but one where it
comes to nothing although one is asked for (`Allocation.isProportional`).  Although the rounded
number is kept in 64 bits before it is compared with the number of records, nothing of it is
lost, for a part of what can be counted in 64 bits is not rounded above it.  So no more records
are drawn than there are, and not fewer of more records, or at a greater fraction.
-/

namespace CorpusAudit.Allocation

variable (a : Allocation) {fraction : Nat}

/-! ### Rounding -/

/-- The exact part of `n` records, rounded. -/
def share (n fraction : Nat) : Nat :=
  match a.rounding with
  | .ceil => ⌈(n * fraction : ℚ) / million⌉₊
  | .floor => ⌊(n * fraction : ℚ) / million⌋₊

theorem ceil_div_million (k : Nat) :
  ⌈(k : ℚ) / million⌉₊ = (k + (million - 1)) / million
  := by
  have hmillion : (0 : ℚ) < million := by norm_num [million]
  apply eq_of_forall_ge_iff
  intro n
  rw [Nat.ceil_le, div_le_iff₀ hmillion, Nat.div_le_iff_le_mul_add_pred (by decide)]
  norm_cast
  rw [Nat.mul_comm million n]
  exact (Nat.add_le_add_iff_right).symm

/-- Rounding in whole numbers is rounding of the exact part. -/
theorem round_eq_share (n fraction : Nat) :
  a.round (n * fraction) = a.share n fraction
  := by
  rw [round, share, ← Nat.cast_mul]
  cases a.rounding with
  | ceil => exact (ceil_div_million _).symm
  | floor => exact (Nat.floor_div_eq_div _ _).symm

theorem round_mono {m n : Nat} (h : m ≤ n) :
  a.round m ≤ a.round n
  := by
  obtain ⟨rounding, atLeastOne⟩ := a
  cases rounding with
  | ceil => exact Nat.div_le_div_right (Nat.add_le_add_right h _)
  | floor => exact Nat.div_le_div_right h

/-- Whole numbers are not rounded. -/
theorem round_add_mul_million (k n : Nat) :
  a.round (k + n * million) = a.round k + n
  := by
  obtain ⟨rounding, atLeastOne⟩ := a
  cases rounding with
  | ceil =>
    show (k + n * million + (million - 1)) / million = (k + (million - 1)) / million + n
    rw [Nat.add_right_comm, Nat.add_mul_div_right _ _ (by decide)]
  | floor => exact Nat.add_mul_div_right k n (by decide)

theorem round_mul_million (n : Nat) :
  a.round (n * million) = n
  := by
  have h := a.round_add_mul_million 0 n
  have hzero : a.round 0 = 0 := by
    obtain ⟨rounding, atLeastOne⟩ := a
    cases rounding <;> rfl
  rwa [hzero, Nat.zero_add, Nat.zero_add] at h

/-- A part of `n` is not rounded above `n`. -/
theorem round_le (n : Nat) (h : fraction ≤ million) :
  a.round (n * fraction) ≤ n
  := by
  have hround := a.round_mono (Nat.mul_le_mul_left n h)
  rwa [round_mul_million] at hround

/-- Of one more record, the part is rounded to at most one more. -/
theorem round_succ_le (n : Nat) (h : fraction ≤ million) :
  a.round ((n + 1) * fraction) ≤ a.round (n * fraction) + 1
  := by
  rw [← round_add_mul_million]
  apply round_mono
  rw [Nat.succ_mul, Nat.one_mul]
  exact Nat.add_le_add_left h _

/-- By how much two rounded parts may exceed both of them rounded together. -/
def excess : Nat :=
  match a.rounding with
  | .ceil => 1
  | .floor => 0

/-- By how much two rounded parts may fall short of both of them rounded together. -/
def shortfall : Nat :=
  match a.rounding with
  | .ceil => 0
  | .floor => 1

theorem add_round_le (k l : Nat) :
  a.round k + a.round l ≤ a.round (k + l) + a.excess
  := by
  rw [round, round, round, excess]
  cases a.rounding with
  | ceil =>
    simp only [million]
    omega
  | floor => exact Nat.div_add_div_le_add_div

theorem round_add_le (k l : Nat) :
  a.round (k + l) ≤ a.round k + a.round l + a.shortfall
  := by
  rw [round, round, round, shortfall]
  cases a.rounding with
  | ceil =>
    simp only [million]
    omega
  | floor =>
    simp only [million]
    omega

/-! ### Allocating -/

theorem allocate_le (n fraction : Nat) :
  a.allocate n fraction ≤ n
  := by
  simp only [allocate]
  split
  · next h =>
    simp only [Bool.and_eq_true, decide_eq_true_eq] at h
    exact h.1.2
  · exact Nat.min_le_right _ _

/-- Neither keeping the rounded number in 64 bits nor taking the minimum changes it. -/
theorem allocate_eq {n : Nat} (hn : n < UInt64.size) (h : fraction ≤ million) :
  a.allocate n fraction
    = if a.round (n * fraction) = 0 ∧ 0 < n ∧ a.atLeastOne = true then 1
      else a.round (n * fraction)
  := by
  have hle := a.round_le n h
  simp only [allocate, Nat.mod_eq_of_lt (Nat.lt_of_le_of_lt hle hn), Nat.min_eq_left hle,
    Bool.and_eq_true, decide_eq_true_eq, and_assoc]

/-- At a greater fraction, not fewer of `n` records are drawn. -/
theorem allocate_mono {n fraction' : Nat} (hn : n < UInt64.size) (h : fraction ≤ fraction')
    (hmost : fraction' ≤ million) :
  a.allocate n fraction ≤ a.allocate n fraction'
  := by
  have hround := a.round_mono (Nat.mul_le_mul_left n h)
  rw [a.allocate_eq hn (Nat.le_trans h hmost), a.allocate_eq hn hmost]
  grind

/-- Of more records, not fewer are drawn. -/
theorem allocate_mono_left {m n : Nat} (h : m ≤ n) (hn : n < UInt64.size)
    (hmost : fraction ≤ million) :
  a.allocate m fraction ≤ a.allocate n fraction
  := by
  have hround := a.round_mono (Nat.mul_le_mul_right fraction h)
  rw [a.allocate_eq (Nat.lt_of_le_of_lt h hn) hmost, a.allocate_eq hn hmost]
  grind

theorem allocate_succ_le {n : Nat} (hn : n + 1 < UInt64.size) (h : fraction ≤ million) :
  a.allocate (n + 1) fraction ≤ a.allocate n fraction + 1
  := by
  have hround := a.round_succ_le n h
  rw [a.allocate_eq hn h, a.allocate_eq (Nat.lt_of_succ_lt hn) h]
  grind

/-- Of two groups at least as many records are drawn as of both together, if parts are rounded
up. -/
theorem allocate_add_le (hceil : a.rounding = .ceil) {m n : Nat} (hmn : m + n < UInt64.size)
    (h : fraction ≤ million) :
  a.allocate (m + n) fraction ≤ a.allocate m fraction + a.allocate n fraction
  := by
  have hshortfall : a.shortfall = 0 := by rw [shortfall, hceil]
  have hround := a.round_add_le (m * fraction) (n * fraction)
  rw [← Nat.add_mul, hshortfall, Nat.add_zero] at hround
  rw [a.allocate_eq hmn h, a.allocate_eq (Nat.lt_of_le_of_lt (Nat.le_add_right m n) hmn) h,
    a.allocate_eq (Nat.lt_of_le_of_lt (Nat.le_add_left n m) hmn) h]
  grind

/-- At a fraction in millionths, a policy draws the exact part of the records, rounded, except
that it draws one where this is none although there are records and one is asked for. -/
structure IsProportional (fraction : Nat) : Prop where
  /-- The part can be kept in 128 bits, and rounded it is not changed by keeping it in 64. -/
  fits : ∀ n < UInt64.size, n * fraction < 2 ^ 128
    ∧ a.round (n * fraction) % UInt64.size = a.round (n * fraction)
  eq_share : ∀ n < UInt64.size, a.allocate n fraction
    = if a.share n fraction = 0 ∧ 0 < n ∧ a.atLeastOne = true then 1 else a.share n fraction
  le : ∀ n, a.allocate n fraction ≤ n
  whole : fraction = million → ∀ n < UInt64.size, a.allocate n fraction = n
  mono : ∀ m n, m ≤ n → n < UInt64.size → a.allocate m fraction ≤ a.allocate n fraction
  mono_fraction : ∀ n < UInt64.size, ∀ fraction', fraction ≤ fraction' → fraction' ≤ million →
    a.allocate n fraction ≤ a.allocate n fraction'
  succ_le : ∀ n, n + 1 < UInt64.size → a.allocate (n + 1) fraction ≤ a.allocate n fraction + 1
  add_le : a.rounding = .ceil → ∀ m n, m + n < UInt64.size →
    a.allocate (m + n) fraction ≤ a.allocate m fraction + a.allocate n fraction

/-- Every policy draws the exact part, rounded, of as many records as can be counted in 64
bits. -/
theorem isProportional (h : fraction ≤ million) :
  a.IsProportional fraction
  where
    fits n hn := by
      constructor
      · calc n * fraction < UInt64.size * 2 ^ 64 := by
              apply Nat.mul_lt_mul'' hn
              exact Nat.lt_of_le_of_lt h (by decide)
          _ = 2 ^ 128 := rfl
      · exact Nat.mod_eq_of_lt (Nat.lt_of_le_of_lt (a.round_le n h) hn)
    eq_share n hn := by
      rw [a.allocate_eq hn h, round_eq_share]
    le n := a.allocate_le n fraction
    whole hwhole n hn := by
      rw [a.allocate_eq hn h, hwhole, round_mul_million]
      grind
    mono m n hmn hn := a.allocate_mono_left hmn hn h
    mono_fraction n hn fraction' hle hmost := a.allocate_mono hn hle hmost
    succ_le n hn := a.allocate_succ_le hn h
    add_le hceil m n hmn := a.allocate_add_le hceil hmn h

/-- Of as many records as can be counted in 64 bits, a half rounded up; and of one record, the
one that is asked for where a half is rounded down to none. -/
theorem isProportional_half :
  (⟨.ceil, true⟩ : Allocation).allocate (2 ^ 64 - 1) 500000 = 2 ^ 63
    ∧ (⟨.floor, true⟩ : Allocation).allocate 1 500000 = 1
    ∧ (⟨.floor, false⟩ : Allocation).allocate 1 500000 = 0
    ∧ (⟨.ceil, false⟩ : Allocation).allocate (3 + (2 ^ 64 - 5)) 500000
      ≤ (⟨.ceil, false⟩ : Allocation).allocate 3 500000
        + (⟨.ceil, false⟩ : Allocation).allocate (2 ^ 64 - 5) 500000
  := by
  have hhalf (a : Allocation) : a.IsProportional 500000 := a.isProportional (by decide)
  refine ⟨?_, ?_, ?_, (hhalf _).add_le rfl _ _ (by decide)⟩
  · rw [(hhalf _).eq_share _ (by decide), share]
    norm_num [million]
  · rw [(hhalf _).eq_share _ (by decide), share]
    norm_num [million]
  · rw [(hhalf _).eq_share _ (by decide), share]
    norm_num [million]

end CorpusAudit.Allocation
