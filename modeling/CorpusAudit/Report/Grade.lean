import CorpusAudit.Decode
import CorpusAudit.Text.Blank

/-!
# Grades

A group of records is graded by the part of it that passed, in bands whose bounds are
whole percentages, so that the grade is found in exact arithmetic.  A group without
records has no grade.
-/

namespace CorpusAudit

/-- A grade, the best first. -/
inductive Grade where
  /-- At least 95 percent. -/
  | a
  /-- At least 85 percent. -/
  | b
  /-- At least 70 percent. -/
  | c
  /-- At least 50 percent. -/
  | d
  | f
  /-- There is nothing to grade. -/
  | notApplicable
deriving DecidableEq, Repr, Inhabited

namespace Grade

/-- The grades, the best first. -/
def all : List Grade :=
  [.a, .b, .c, .d, .f, .notApplicable]

/-- The place of a grade, the best first. -/
def rank : Grade → Nat
  | .a => 0
  | .b => 1
  | .c => 2
  | .d => 3
  | .f => 4
  | .notApplicable => 5

/-- The grade of a group of which `passed` of `total` records passed. -/
def ofCounts (passed total : Nat) : Grade :=
  if total = 0 then .notApplicable
  else if 95 * total ≤ passed * 100 then .a
  else if 85 * total ≤ passed * 100 then .b
  else if 70 * total ≤ passed * 100 then .c
  else if 50 * total ≤ passed * 100 then .d
  else .f

/-- Whether a grade is at least as good as another; nothing to grade never is. -/
def meets (g least : Grade) : Bool :=
  g ≠ .notApplicable && g.rank ≤ least.rank

/-- The text of a grade. -/
def symbol : Grade → String
  | .a => "A"
  | .b => "B"
  | .c => "C"
  | .d => "D"
  | .f => "F"
  | .notApplicable => "N/A"

/-- The icon of a grade. -/
def icon : Grade → String
  | .a => "✅"
  | .b => "⚠️"
  | .c => "⚠️"
  | .notApplicable => "➖"
  | .d => "❌"
  | .f => "❌"

/-- The grade with the given symbol. -/
def ofSymbol? (s : String) : Option Grade :=
  all.find? (·.symbol = s)

/-- Every grade is found by its symbol. -/
theorem ofSymbol?_symbol (g : Grade) :
  ofSymbol? g.symbol = some g
  := by
  cases g <;> decide +kernel

/-- A grade as it is looked for on the command line: without blanks around it, its ASCII
letters in upper case. -/
def normalize (s : String) : String :=
  (Text.trim s).map Char.toUpper

/-- The grade that a user names; that there is nothing to grade cannot be asked for. -/
def parse? (s : String) : Option Grade :=
  (ofSymbol? (normalize s)).filter (· ≠ .notApplicable)

/-- What is said of a text that names no grade. -/
def unknownMessage (s : String) : String :=
  s!"unknown grade '{normalize s}' (expected A, B, C, D or F)"

/-- A grade as a value. -/
def toValue (g : Grade) : Value :=
  .text g.symbol

/-- A grade is given by its symbol. -/
def decode (d : Decode.Dialect) : Decoder Grade :=
  Decode.choice d ofSymbol?

end Grade

/-- The part of a group that passed; a group without records has none. -/
def passRate? (passed total : Nat) : Option Float :=
  if total = 0 then none else some (Float.ofNat passed / Float.ofNat total)

/-- How many records of a category passed and failed, with its grade. -/
structure CategoryResult where
  passed : Nat
  failed : Nat
  passRate : Option Float
  grade : Grade
deriving DecidableEq, Repr

namespace CategoryResult

/-- The result of a category from its counts. -/
def ofCounts (passed failed : Nat) : CategoryResult :=
  ⟨passed, failed, passRate? passed (passed + failed), .ofCounts passed (passed + failed)⟩

/-- The number of records of a category, in 64 bits: the sum of great counts wraps
around. -/
def total (r : CategoryResult) : Nat :=
  (r.passed + r.failed) % UInt64.size

/-- A result as a value. -/
def toValue (r : CategoryResult) : Value :=
  .record [("passed", .nat r.passed), ("failed", .nat r.failed),
    ("pass_rate", .ofOption .float r.passRate), ("grade", r.grade.toValue)]

/-- Read a result as it is written by `toValue`. -/
def decode (d : Decode.Dialect) : Decoder CategoryResult := fun v => do
  let fs ← Decode.fields d ["passed", "failed", "pass_rate", "grade"] true v
  let passed ← fs.required "passed" Decode.count
  let failed ← fs.required "failed" Decode.count
  let passRate ← fs.optional "pass_rate" Decode.float
  let grade ← fs.required "grade" (Grade.decode d)
  some ⟨passed, failed, passRate, grade⟩

end CategoryResult

end CorpusAudit
