import CorpusAudit.Decode

/-!
# Allocations

How many records of a category are drawn: a fraction of them, in millionths, that is
rounded up or down, but at least one if the policy says so.
-/

namespace CorpusAudit

/-- How a fraction of the records is made a whole number. -/
inductive Rounding where
  | ceil
  | floor
deriving DecidableEq, Repr, Inhabited

namespace Rounding

/-- The name of a rounding in documents. -/
def name : Rounding → String
  | .ceil => "ceil"
  | .floor => "floor"

/-- The rounding with the given name. -/
def ofName? (s : String) : Option Rounding :=
  [Rounding.ceil, .floor].find? (·.name = s)

/-- A rounding is given by its name. -/
def decode (d : Decode.Dialect) : Decoder Rounding :=
  Decode.choice d ofName?

end Rounding

/-- How many records of a category are drawn. -/
structure Allocation where
  rounding : Rounding
  /-- Draw at least one record of every category. -/
  atLeastOne : Bool
deriving DecidableEq, Repr

namespace Allocation

/-- A whole, in millionths. -/
def million : Nat := 1000000

/-- The policy unless another one is given: round up. -/
def default : Allocation :=
  ⟨.ceil, true⟩

instance : Inhabited Allocation := ⟨default⟩

/-- The whole number that a number of millionths is rounded to. -/
def round (a : Allocation) (millionths : Nat) : Nat :=
  match a.rounding with
  | .ceil => (millionths + (million - 1)) / million
  | .floor => millionths / million

/-- How many of `n` records are drawn at a fraction in millionths.  The rounded number is
kept in 64 bits. -/
def allocate (a : Allocation) (n fraction : Nat) : Nat :=
  let k := min (a.round (n * fraction) % UInt64.size) n
  if k = 0 && 0 < n && a.atLeastOne then 1 else k

/-- A policy as a value. -/
def toValue (a : Allocation) : Value :=
  .record [("rounding", .text a.rounding.name), ("at_least_one", .bool a.atLeastOne)]

end Allocation

end CorpusAudit
