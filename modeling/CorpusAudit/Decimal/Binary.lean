/-!
# Binary fractions

A finite floating-point number is a sign and a magnitude `significand * 2 ^ exponent`.
The magnitude is read off the bits, and everything about the digits of a number is
computed from it in exact integer arithmetic.  `totalKey` turns the total order of
floating-point numbers, in which `-0.0` comes before `0.0`, into the order of integers.
-/

namespace CorpusAudit.Decimal

/-- The magnitude `significand * 2 ^ exponent` of a finite number. -/
structure Binary where
  significand : Nat
  exponent : Int
  /-- The number below is half as far away as the number above. -/
  nearBelow : Bool
deriving DecidableEq, Repr

/-- The number of fractions between two neighbouring powers of two: a fraction has 52
bits. -/
def fractions : Nat := 4503599627370496

/-- The number of values of the exponent, which has 11 bits. -/
def exponents : Nat := 2048

/-- The magnitude of a finite number, from its bits. -/
def Binary.ofFloat (x : Float) : Binary :=
  let bits := x.toBits.toNat
  let field : Nat := bits / fractions % exponents
  let fraction := bits % fractions
  if field = 0 then ⟨fraction, -1074, false⟩
  else ⟨fractions + fraction, (field : Int) - 1075, fraction = 0 && field > 1⟩

/-- Whether the sign of a number is negative, zeros included. -/
def isNegative (x : Float) : Bool :=
  x.toBits.toNat / (exponents * fractions) = 1

/-- The place of a number in the total order of floating-point numbers. -/
def totalKey (x : Float) : Int :=
  let bits := x.toBits.toNat
  if bits < exponents * fractions then bits else -1 - ((bits : Int) - exponents * fractions)

/-- The total order tells numbers with different bits apart. -/
theorem totalKey_injective {x y : Float} (h : totalKey x = totalKey y) :
  x.toBits = y.toBits
  := by
  unfold totalKey exponents fractions at h
  apply UInt64.toNat_inj.mp
  grind

/-- The order in which larger numbers come first. -/
def compareDescending (x y : Float) : Ordering :=
  compare (totalKey y) (totalKey x)

end CorpusAudit.Decimal
