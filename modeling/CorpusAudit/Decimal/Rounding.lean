import CorpusAudit.Decimal.Binary

/-!
# Rounding to a number of places

`roundQuotient` rounds a quotient of natural numbers to the nearest natural number, an
exact half to the even neighbour; `fixed` writes a floating-point number with a given
number of places by rounding its exact value that way.  `Binary.nearest` rounds an exact
half up.  The main statement is that the
rounded quotient is within half a unit of the exact one, and even where both
neighbours are equally near.
-/

namespace CorpusAudit.Decimal

/-- The natural number nearest to `a / b`, the even one of two equally near. -/
def roundQuotient (a b : Nat) : Nat :=
  let q := a / b
  if 2 * (a % b) < b then q
  else if 2 * (a % b) = b then (if q % 2 = 0 then q else q + 1)
  else q + 1

/-- The rounded quotient is within half a unit of the exact one. -/
theorem roundQuotient_near {a b : Nat} (h : 0 < b) :
  2 * (roundQuotient a b * b) ≤ 2 * a + b ∧ 2 * a ≤ 2 * (roundQuotient a b * b) + b
  := by
  have e : b * (a / b) + a % b = a := Nat.div_add_mod a b
  have l : a % b < b := Nat.mod_lt a h
  simp only [roundQuotient]
  generalize a / b = q at e
  generalize a % b = r at e l
  have h1 : (q + 1) * b = b * q + b := by rw [Nat.add_mul, Nat.mul_comm, Nat.one_mul]
  have h2 : q * b = b * q := Nat.mul_comm q b
  generalize b * q = p at *
  split
  · omega
  · split
    · split <;> omega
    · omega

/-- An exact half goes to the even neighbour. -/
theorem roundQuotient_even {a b : Nat} (h : 2 * (a % b) = b) :
  roundQuotient a b % 2 = 0
  := by
  simp only [roundQuotient]
  split
  · omega
  · split
    · assumption
    · omega

/-- The natural number nearest to a magnitude, the larger of two equally near. -/
def Binary.nearest (x : Binary) : Nat :=
  let unit := Nat.pow 2 (-x.exponent).toNat
  (2 * (x.significand * Nat.pow 2 x.exponent.toNat) + unit) / (2 * unit)

/-- The nearest number is zero exactly if the magnitude is less than a half. -/
theorem Binary.nearest_eq_zero_iff {x : Binary} :
  x.nearest = 0 ↔ 2 * (x.significand * Nat.pow 2 x.exponent.toNat) < Nat.pow 2 (-x.exponent).toNat
  := by
  simp only [nearest]
  rw [Nat.div_eq_zero_iff]
  have hunit : 0 < Nat.pow 2 (-x.exponent).toNat := Nat.two_pow_pos _
  omega

/-- The decimal digits of a natural number, and a point before the last `places` of
them; zeros are put in front where there are too few digits. -/
def placePoint (places n : Nat) : List Char :=
  let digits := Nat.toDigits 10 n
  let digits := List.replicate (places + 1 - digits.length) '0' ++ digits
  if places = 0 then digits
  else digits.take (digits.length - places) ++ '.' :: digits.drop (digits.length - places)

/-- The magnitude of a finite number, rounded to `places` places. -/
def Binary.fixed (places : Nat) (x : Binary) : List Char :=
  placePoint places
    (roundQuotient (x.significand * Nat.pow 2 x.exponent.toNat * Nat.pow 10 places)
      (Nat.pow 2 (-x.exponent).toNat))

/-- The sign of a number as it is written: nothing for a plus, unless `always`. -/
def signText (always : Bool) (x : Float) : List Char :=
  if isNegative x then ['-'] else if always then ['+'] else []

/-- The text of a number, the text of a finite magnitude being given by `write`. -/
def withSign (always : Bool) (write : Binary → List Char) (x : Float) : String :=
  if x.isNaN then "NaN"
  else String.ofList (signText always x ++
    if x.isInf then ['i', 'n', 'f'] else write (Binary.ofFloat x))

/-- A number with exactly `places` places, its exact value rounded. -/
def fixed (places : Nat) (x : Float) : String :=
  withSign false (Binary.fixed places) x

/-- A number with exactly `places` places and always with its sign. -/
def fixedSigned (places : Nat) (x : Float) : String :=
  withSign true (Binary.fixed places) x

end CorpusAudit.Decimal
