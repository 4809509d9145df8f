import CorpusAudit.Decimal.Rounding

/-!
# The fewest digits that read back

A floating-point number stands for the interval of all real numbers that round to it.
`shortest` finds the decimal with the fewest digits in that interval, and of those the
nearest to the number: for one, two, … digits it tests the two neighbours of the number
on that decimal grid.  `NumberStyle` says how the digits are laid out; the library writes
numbers in two styles, `plainStyle` in messages and `dataStyle` in documents.
-/

namespace CorpusAudit.Decimal

/-- The decimal number `digits * 10 ^ exponent`. -/
structure Scaled where
  digits : Nat
  exponent : Int
deriving DecidableEq, Repr

/-- The interval of numbers that round to a magnitude, over a common denominator:
the magnitude is `value / den`, the ends are `low / den` and `high / den`. -/
structure Interval where
  low : Nat
  value : Nat
  high : Nat
  den : Nat
  /-- The ends belong to the interval. -/
  closed : Bool

/-- The interval of a magnitude: halfway to its neighbours, the ends included when the
significand is even. -/
def Binary.interval (x : Binary) : Interval where
  low := (4 * x.significand - if x.nearBelow then 1 else 2) * Nat.pow 2 x.exponent.toNat
  value := 4 * x.significand * Nat.pow 2 x.exponent.toNat
  high := (4 * x.significand + 2) * Nat.pow 2 x.exponent.toNat
  den := 4 * Nat.pow 2 (-x.exponent).toNat
  closed := x.significand % 2 = 0

/-- The interval in units of `10 ^ e`. -/
def Interval.rescale (i : Interval) (e : Int) : Interval where
  low := i.low * Nat.pow 10 (-e).toNat
  value := i.value * Nat.pow 10 (-e).toNat
  high := i.high * Nat.pow 10 (-e).toNat
  den := i.den * Nat.pow 10 e.toNat
  closed := i.closed

/-- Whether a natural number lies in the interval. -/
def Interval.contains (i : Interval) (n : Nat) : Bool :=
  if i.closed then i.low ≤ n * i.den && n * i.den ≤ i.high
  else i.low < n * i.den && n * i.den < i.high

/-- Which of two equally near decimals is taken. -/
inductive Tie where
  | toEven
  | up
deriving DecidableEq, Repr

/-- The neighbour of the value, among the natural numbers in the interval, that is
nearest to it. -/
def Interval.nearest? (i : Interval) (tie : Tie) : Option Nat :=
  let below := i.value / i.den
  match i.contains below, i.contains (below + 1) with
  | false, false => none
  | true, false => some below
  | false, true => some (below + 1)
  | true, true =>
    let rest := 2 * (i.value % i.den)
    if rest < i.den then some below
    else if i.den < rest then some (below + 1)
    else match tie with
      | .up => some (below + 1)
      | .toEven => some (if below % 2 = 0 then below else below + 1)

/-- What is selected lies in the interval. -/
theorem Interval.contains_of_nearest? {i : Interval} {tie : Tie} {n : Nat}
    (h : i.nearest? tie = some n) :
  i.contains n = true
  := by
  unfold nearest? at h
  grind

/-- The number of zeros between the point and the first digit of `a / b`, for a
quotient below one. -/
def leadingZeros : Nat → Nat → Nat → Nat
  | 0, _, _ => 0
  | fuel + 1, a, b => if b ≤ 10 * a then 0 else leadingZeros fuel (10 * a) b + 1

/-- The least `k` such that the value is below `10 ^ k`. -/
def Interval.magnitude (i : Interval) : Int :=
  if i.den ≤ i.value then (Nat.toDigits 10 (i.value / i.den)).length
  else -(leadingZeros 400 i.value i.den)

/-- The first grid, from `digits` digits on, with a decimal in the interval. -/
def Interval.search (i : Interval) (tie : Tie) (magnitude : Int) : Nat → Nat → Option Scaled
  | 0, _ => none
  | fuel + 1, digits =>
    let e := magnitude - digits
    match (i.rescale e).nearest? tie with
    | some n => some ⟨n, e⟩
    | none => i.search tie magnitude fuel (digits + 1)

/-- Trailing zeros of the digits go to the exponent. -/
def stripZeros : Nat → Scaled → Scaled
  | 0, s => s
  | fuel + 1, s =>
    if s.digits ≠ 0 ∧ s.digits % 10 = 0 then stripZeros fuel ⟨s.digits / 10, s.exponent + 1⟩ else s

/-- The decimal with the fewest digits that reads back to the magnitude.  Seventeen
digits always do; were they not enough, the exact decimal value would be given. -/
def Binary.shortest (tie : Tie) (x : Binary) : Scaled :=
  if x.significand = 0 then ⟨0, 0⟩
  else
    let i := x.interval
    match i.search tie i.magnitude 17 1 with
    | some s => stripZeros 20 s
    | none =>
      ⟨x.significand * Nat.pow 2 x.exponent.toNat * Nat.pow 5 (-x.exponent).toNat, -(-x.exponent).toNat⟩

/-! ### Layout -/

/-- How the digits of a number are laid out. -/
structure NumberStyle where
  /-- The exponents of the first digit, from the first to below the second, for which
  the number is written without an exponent; every number is if there is none. -/
  positional : Option (Int × Int)
  /-- A whole number ends in `.0`. -/
  pointZero : Bool
  tie : Tie
deriving DecidableEq, Repr

/-- Numbers in messages have no exponent, and whole numbers no point. -/
def plainStyle : NumberStyle where
  positional := none
  pointZero := false
  tie := .up

/-- Numbers in documents always have a point or an exponent, the latter below
`10 ^ -5` and from `10 ^ 16` on. -/
def dataStyle : NumberStyle where
  positional := some (-5, 16)
  pointZero := true
  tie := .toEven

/-- The digits with the point in its place. -/
def NumberStyle.layPositional (n : NumberStyle) (s : Scaled) : List Char :=
  let digits := Nat.toDigits 10 s.digits
  if 0 ≤ s.exponent then
    digits ++ List.replicate s.exponent.toNat '0' ++ if n.pointZero then ['.', '0'] else []
  else
    placePoint (-s.exponent).toNat s.digits

/-- The first digit, a point, the other digits and the exponent with its sign. -/
def layScientific (s : Scaled) : List Char :=
  let digits := Nat.toDigits 10 s.digits
  let e := s.exponent + digits.length - 1
  digits.take 1 ++ (if digits.length = 1 then [] else '.' :: digits.drop 1) ++ 'e' ::
    (if e < 0 then '-' else '+') :: Nat.toDigits 10 e.natAbs

/-- The text of a magnitude in a style. -/
def NumberStyle.lay (n : NumberStyle) (x : Binary) : List Char :=
  let s := x.shortest n.tie
  let e := s.exponent + (Nat.toDigits 10 s.digits).length - 1
  match n.positional with
  | none => n.layPositional s
  | some (least, bound) =>
    if s.digits = 0 ∨ least ≤ e ∧ e < bound then n.layPositional s else layScientific s

/-- A number as it stands in a message. -/
def plain (x : Float) : String :=
  withSign false plainStyle.lay x

/-- A finite number as it stands in a document. -/
def data (x : Float) : String :=
  withSign false dataStyle.lay x

end CorpusAudit.Decimal
