/-!
# Levels of comparison

Two states of a corpus are compared category by category or record by record.
-/

namespace CorpusAudit

/-- What the entries of a snapshot stand for. -/
inductive Level where
  | category
  | record
deriving DecidableEq, Repr

/-- The name of a level in all outputs. -/
def Level.name : Level → String
  | .category => "category"
  | .record => "record"

end CorpusAudit
