import CorpusAudit.Corpus.Reading
import CorpusAudit.Label.Statistics

/-!
# Labels

Every record is labelled with the tier and the name of the first rule that matches it.  A
labelled corpus is written as JSON Lines, the columns of the record followed by those
of its label, and can be read again as a corpus.
-/

namespace CorpusAudit

/-- The tier of a record, and the rule that gave it. -/
structure Label where
  recordId : String
  tier : Tier
  rule : String
deriving DecidableEq, Repr

/-- The label of a record. -/
def RuleSet.label (rules : RuleSet) (r : Record) : Label :=
  let first := rules.firstMatch r.features
  ⟨r.id, first.tier, first.name⟩

/-- A corpus with a label for every record. -/
structure LabeledCorpus where
  corpus : Corpus
  rules : RuleSet
deriving Repr

namespace LabeledCorpus

/-- The records of the corpus. -/
def records (c : LabeledCorpus) : List Record :=
  c.corpus.records

/-- The labels of the records, in their order. -/
def labels (c : LabeledCorpus) : List Label :=
  c.records.map c.rules.label

/-- The statistics of the labels. -/
def statistics (c : LabeledCorpus) : LabelStatistics :=
  .collect c.rules c.records

/-- The row of a labelled record. -/
def row (rules : RuleSet) (r : Record) : Value :=
  let label := rules.label r
  .record (r.columns ++ [("risk_tier", label.tier.toValue), ("matched_rule", .text label.rule)])

/-- The rows of a labelled corpus, each on a line of its own. -/
def lines (c : LabeledCorpus) : List Char :=
  c.records.flatMap fun r => Json.compact (row c.rules r) ++ ['\n']

variable {m : Type → Type} [Monad m] [Storage m]

/-- Read a corpus and label it. -/
def load (rules : RuleSet) (p : Path) (limit : Float) : ExceptT Fault m LabeledCorpus := do
  let corpus ← Corpus.load p limit
  pure ⟨corpus, rules⟩

/-- Write a labelled corpus as JSON Lines. -/
def writeLines (c : LabeledCorpus) (p : Path) : ExceptT Fault m Unit :=
  Storage.writeAtomic p ⟨Text.encode (String.ofList c.lines), none⟩

end LabeledCorpus

end CorpusAudit
