import CorpusAudit.Gate.Level
import CorpusAudit.Report.Basic

/-!
# Snapshots

A `Snapshot` says of every category or record whether it passes.  Whether a category
passes is a matter of the `PassPolicy`.
-/

namespace CorpusAudit

/-- When a category passes. -/
inductive PassPolicy where
  /-- One of its records passes. -/
  | any
  /-- All of its records pass. -/
  | all
deriving DecidableEq, Repr, Inhabited

namespace PassPolicy

/-- The name of a policy in documents and on the command line. -/
def name : PassPolicy → String
  | .any => "any"
  | .all => "all"

/-- The policy with the given name. -/
def ofName? (s : String) : Option PassPolicy :=
  [PassPolicy.any, .all].find? (·.name = s)

/-- A policy is given by its name. -/
def decode (d : Decode.Dialect) : Decoder PassPolicy :=
  Decode.choice d ofName?

/-- Whether a category passes of which `passed` of `total` records pass; a category
without records neither passes nor fails. -/
def status (p : PassPolicy) (passed total : Nat) : Option Bool :=
  if total = 0 then none
  else match p with
    | .any => some (0 < passed)
    | .all => some (passed = total)

end PassPolicy

/-- Whether each category or record passes. -/
structure Snapshot where
  level : Level
  entries : Table Bool
deriving DecidableEq, Repr

namespace Snapshot

/-- Which categories of a report pass; those without records are left out. -/
def ofReport (p : PassPolicy) (r : Report) : Snapshot :=
  ⟨.category, r.byCategory.filterMap fun c => p.status c.passed c.total⟩

/-- Which records pass, by their identifiers. -/
def ofRecords (records : List Record) : Snapshot :=
  ⟨.record, Table.ofList (records.map fun r => (r.id, r.isPassing))⟩

end Snapshot

end CorpusAudit
