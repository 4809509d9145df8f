import CorpusAudit.Decode

/-!
# Priorities

How urgent it is to do something.
-/

namespace CorpusAudit

/-- How urgent an action is. -/
inductive Priority where
  | high
  | medium
  | low
deriving DecidableEq, Repr

namespace Priority

/-- The name of a priority in all outputs. -/
def name : Priority → String
  | .high => "HIGH"
  | .medium => "MEDIUM"
  | .low => "LOW"

/-- The priority with the given name. -/
def ofName? (s : String) : Option Priority :=
  [Priority.high, .medium, .low].find? (·.name = s)

/-- Every priority is found by its name. -/
theorem ofName?_name (p : Priority) :
  ofName? p.name = some p
  := by
  cases p <;> decide +kernel

/-- A priority as a value. -/
def toValue (p : Priority) : Value :=
  .text p.name

/-- A priority is given by its name. -/
def decode (d : Decode.Dialect) : Decoder Priority :=
  Decode.choice d ofName?

end Priority

end CorpusAudit
