/-!
# Reading decimals

`valueOf` is the natural number that a row of digits stands for, and `nearestFloat` the
floating-point number nearest to `m * 10 ^ e`.  `count?` and `float?` read the numbers
that a user writes.
-/

namespace CorpusAudit.Decimal

/-- The digits `0` to `9`. -/
def isDigit (c : Char) : Bool :=
  '0' ≤ c && c ≤ '9'

/-- The value of a digit in any base up to sixteen. -/
def digitValue (c : Char) : Nat :=
  if isDigit c then c.toNat - '0'.toNat
  else if 'a' ≤ c && c ≤ 'f' then c.toNat - 'a'.toNat + 10
  else c.toNat - 'A'.toNat + 10

/-- The natural number that a row of digits in base `base` stands for. -/
def valueOf (base : Nat) (digits : List Char) : Nat :=
  digits.foldl (fun n c => n * base + digitValue c) 0

/-- One digit more at the end. -/
theorem valueOf_concat (base : Nat) (digits : List Char) (c : Char) :
  valueOf base (digits ++ [c]) = valueOf base digits * base + digitValue c
  := by
  simp [valueOf]

/-- The floating-point number nearest to `m * 10 ^ e`.  Beyond the range of
floating-point numbers nothing has to be computed. -/
def nearestFloat (m : Nat) (e : Int) : Float :=
  let magnitude := e + (Nat.toDigits 10 m).length
  if m = 0 ∨ magnitude < -330 then 0
  else if 310 < magnitude then 1 / 0
  else Float.ofScientific m (e < 0) e.natAbs

/-! ### Numbers that a user writes -/

/-- A number in decimal digits. -/
def natural? (s : List Char) : Option Nat :=
  if s.isEmpty || !s.all isDigit then none else some (valueOf 10 s)

/-- A text without the plus sign that it may start with. -/
def dropPlus : List Char → List Char
  | '+' :: s => s
  | s => s

/-- A number in decimal digits, perhaps with a plus sign, that fits in 64 bits. -/
def count? (s : List Char) : Option Nat :=
  (natural? (dropPlus s)).filter (· < UInt64.size)

/-- A number in decimal digits, perhaps with a sign. -/
def integer? : List Char → Option Int
  | '-' :: s => (natural? s).map fun n => -(n : Int)
  | s => (natural? (dropPlus s)).map fun n => (n : Int)

/-- The exponent at the end of a number, zero if there is none. -/
def exponent? : List Char → Option Int
  | [] => some 0
  | c :: s => if c = 'e' || c = 'E' then integer? s else none

/-- A floating-point number without a sign: digits, with or without a point before,
among or behind them, and perhaps an exponent. -/
def magnitude? (s : List Char) : Option Float := do
  let whole := s.takeWhile isDigit
  let (places, rest) := match s.dropWhile isDigit with
    | '.' :: more => (more.takeWhile isDigit, more.dropWhile isDigit)
    | rest => ([], rest)
  let e ← exponent? rest
  if whole.isEmpty && places.isEmpty then none
  else some (nearestFloat (valueOf 10 (whole ++ places)) (e - places.length))

/-- Infinity, or what is not a number, by its name in letters of either case. -/
def named? (s : List Char) : Option Float :=
  let name := String.ofList (s.map Char.toLower)
  if name = "inf" || name = "infinity" then some (1 / 0)
  else if name = "nan" then some (0 / 0)
  else none

/-- A floating-point number, perhaps with a sign. -/
def float? : List Char → Option Float
  | '-' :: s => ((magnitude? s).or (named? s)).map fun x => -x
  | s => (magnitude? (dropPlus s)).or (named? (dropPlus s))

end CorpusAudit.Decimal
