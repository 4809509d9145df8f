import CorpusAudit.Decimal.Reading
import CorpusAudit.Value

/-!
# Numbers of JSON documents

A `Numeral` is a number as it is written: sign, whole digits, digits after the point and
an exponent.  Without point and exponent it denotes an integer, if the integer fits in
64 bits, signed or unsigned; any other numeral denotes a floating-point number.  The
leading digits that fit in 64 bits are its significand, and the significand, rounded to
a floating-point number, is multiplied or divided by a power of ten.  This is exact as
long as the significand has at most fifteen digits and the power is at most `10 ^ 22`.
-/

namespace CorpusAudit.Json

/-- A number as it is written. -/
structure Numeral where
  negative : Bool
  whole : List Char
  /-- The digits after the point, empty without a point. -/
  fraction : List Char
  hasPoint : Bool
  /-- The sign and the digits of the exponent. -/
  exponent : Option (Bool × List Char)
deriving DecidableEq, Repr

/-- Append digits to a significand as long as it fits in 64 bits; the result is
the significand and the digits that are left. -/
def absorb : Nat → List Char → Nat × List Char
  | n, [] => (n, [])
  | n, c :: cs =>
    let next := n * 10 + Decimal.digitValue c
    if next < UInt64.size then absorb next cs else (n, c :: cs)

/-- A significand never leaves 64 bits. -/
theorem absorb_lt {n : Nat} (h : n < UInt64.size) (cs : List Char) :
  (absorb n cs).1 < UInt64.size
  := by
  induction cs generalizing n with
  | nil => simpa [absorb] using h
  | cons c cs ih =>
    simp only [absorb]
    split
    · next h' => exact ih h'
    · exact h

/-- Multiply or divide a magnitude by a power of ten, in steps of at most `10 ^ 308`;
there is no result beyond the range of floating-point numbers. -/
def scaleBy : Nat → Float → Int → Option Float
  | 0, x, _ => some x
  | fuel + 1, x, e =>
    if e.natAbs ≤ 308 then
      let power := Decimal.nearestFloat 1 e.natAbs
      if e < 0 then some (x / power)
      else
        let y := x * power
        if y.isInf then none else some y
    else if x == 0 then some x
    else if 0 ≤ e then none
    else scaleBy fuel (x / Decimal.nearestFloat 1 308) (e + 308)

/-- The value of a numeral; none if it is beyond the range of floating-point numbers. -/
def Numeral.value? (s : Numeral) : Option Value :=
  let (significand, more) := absorb 0 s.whole
  let signed (x : Float) : Value := .float (if s.negative then -x else x)
  if !s.hasPoint && s.exponent.isNone && more.isEmpty then
    if s.negative then
      if significand = 0 then some (.float (-0.0))
      else if significand ≤ UInt64.size / 2 then some (.int (-significand))
      else some (.float (-(Float.ofNat significand)))
    else some (.int significand)
  else
    let (significand, dropped) := absorb significand s.fraction
    let places : Int := (more.length : Int) - ((s.fraction.length : Int) - dropped.length)
    let scaled (e : Int) := (scaleBy 4 (Float.ofNat significand) e).map signed
    match s.exponent with
    | none => scaled places
    | some (negative, digits) =>
      let e := Decimal.valueOf 10 digits
      if e < UInt32.size / 2 then scaled (if negative then places - e else places + e)
      else if significand = 0 || negative then some (signed 0)
      else none

end CorpusAudit.Json
