import CorpusAudit.Label.Basic
import CorpusAudit.Priority
import CorpusAudit.Report.Grade
import CorpusAudit.Suspicion.Ranking
import CorpusAudit.Time.Instant

/-!
# Quality reports

A `Report` holds the outcomes of a corpus, altogether and category by category, their
grades, and what should be done about them.  `Report.aggregate` builds it from a
labelled corpus.  A report that is read from a document need not have been built this
way: `Report.faultOf?` says whether its counts are in disagreement.
-/

namespace CorpusAudit

/-- Something that should be done. -/
structure Recommendation where
  priority : Priority
  action : String
  impact : String
deriving DecidableEq, Repr

/-- The quality of a corpus. -/
structure Report where
  version : Nat
  generatedAt : Time.Instant
  total : Nat
  passed : Nat
  /-- All records that did not pass. -/
  failed : Nat
  /-- The records without an outcome, which are among those that failed. -/
  undetermined : Nat
  transpiled : Nat
  passRate : Option Float
  grade : Grade
  byCategory : Table CategoryResult
  risks : ByTier (Option Nat)
  suspicious : List Suspicion
  recommendations : List Recommendation
deriving DecidableEq, Repr

/-! ### Counting outcomes -/

/-- How many records passed and failed. -/
structure PassCount where
  passed : Nat
  failed : Nat
deriving DecidableEq, Repr, Inhabited

/-- The sum of two counts. -/
def PassCount.add (a b : PassCount) : PassCount :=
  ⟨a.passed + b.passed, a.failed + b.failed⟩

/-- The counts of one record. -/
def PassCount.ofRecord (r : Record) : PassCount :=
  if r.isPassing then ⟨1, 0⟩ else ⟨0, 1⟩

/-- Counts of the outcomes of records. -/
structure OutcomeCount where
  outcomes : PassCount
  undetermined : Nat
  transpiled : Nat
  byCategory : Table PassCount
deriving DecidableEq, Repr, Inhabited

namespace OutcomeCount

/-- The counts of no records. -/
def zero : OutcomeCount :=
  ⟨⟨0, 0⟩, 0, 0, Table.empty⟩

/-- Count one more record. -/
def observe (n : OutcomeCount) (r : Record) : OutcomeCount where
  outcomes := n.outcomes.add (.ofRecord r)
  undetermined := n.undetermined + if r.outcome = none then 1 else 0
  transpiled := n.transpiled + if r.transpiled then 1 else 0
  byCategory := n.byCategory.alter r.category fun c => (c.getD ⟨0, 0⟩).add (.ofRecord r)

/-- The counts of two groups of records together. -/
def merge (a b : OutcomeCount) : OutcomeCount where
  outcomes := a.outcomes.add b.outcomes
  undetermined := a.undetermined + b.undetermined
  transpiled := a.transpiled + b.transpiled
  byCategory := a.byCategory.merge PassCount.add b.byCategory

/-- Records are counted one by one. -/
def tally : Tally Record OutcomeCount where
  zero := zero
  observe := observe
  merge := merge

end OutcomeCount

namespace Report

/-! ### Recommendations -/

/-- The part of transpiled records, in percent, below which there should be more. -/
def successTarget : Float := 80

/-- The part of records of the most severe tier, in percent, below which there should be
more. -/
def severeTarget : Float := 20

/-- The suspiciousness above which support for a feature has high priority. -/
def urgentScore : Float := 0.8

/-- The number of records of a tier. -/
def ofTier (r : Report) (t : Tier) : Nat :=
  (r.risks.get t).getD 0

/-- A part of the records in percent; of no records it is nothing. -/
def percentOf (part total : Nat) : Float :=
  (passRate? part total).getD 0 * 100

/-- The part of the records that were transpiled, in percent. -/
def successRate (r : Report) : Float :=
  percentOf r.transpiled r.total

/-- The recommendation to transpile more programs, if few are transpiled. -/
def adviseSuccess (r : Report) : List Recommendation :=
  if r.successRate < successTarget then
    [⟨.high, "Improve success rate from " ++ Decimal.fixed 1 r.successRate ++ "% to "
        ++ Decimal.fixed 0 successTarget ++ "%+", "Major corpus quality improvement"⟩]
  else []

/-- The recommendation to have more programs of the most severe tier, if there are
few. -/
def adviseRisk (r : Report) : List Recommendation :=
  let share := percentOf (r.ofTier .high) r.total
  if share < severeTarget then
    [⟨.medium, "Increase HIGH-risk examples from " ++ Decimal.fixed 1 share ++ "% to "
        ++ Decimal.fixed 0 severeTarget ++ "%+", "Better training data balance"⟩]
  else []

/-- The recommendation to support a suspicious feature. -/
def adviseFeature (s : Suspicion) : Recommendation :=
  ⟨if s.score > urgentScore then .high else .medium,
    s!"Add transpiler support for '{s.feature.name}' (suspiciousness: "
      ++ Decimal.fixed 3 s.score ++ ")",
    "Reduces failure correlation by " ++ Decimal.fixed 0 (s.score * 100) ++ "%"⟩

/-- What should be done, judged from the counts of a report. -/
def advise (r : Report) : List Recommendation :=
  if r.total = 0 then []
  else r.adviseSuccess ++ r.adviseRisk
    ++ ((r.suspicious.filter fun s => s.score > 0).take 3).map adviseFeature

/-! ### Building reports -/

/-- The most suspicious features, none if no record has an outcome. -/
def mostSuspicious (formula : Formula) (most : Nat) (records : List Record) : List Suspicion :=
  match rankFeatures formula records with
  | .ok ranking => ranking.take most
  | .error _ => []

/-- The report on a labelled corpus, listing at most `most` suspicious features. -/
def aggregate (formula : Formula) (most : Nat) (c : LabeledCorpus) (now : Time.Instant) : Report :=
  let n := OutcomeCount.tally.count c.records
  let total := n.outcomes.passed + n.outcomes.failed
  let r : Report :=
    { version := reportVersion
      generatedAt := now
      total
      passed := n.outcomes.passed
      failed := n.outcomes.failed
      undetermined := n.undetermined
      transpiled := n.transpiled
      passRate := passRate? n.outcomes.passed total
      grade := .ofCounts n.outcomes.passed total
      byCategory := n.byCategory.map fun c => .ofCounts c.passed c.failed
      risks := .of fun t => some (c.statistics.ofTier t)
      suspicious := mostSuspicious formula most c.records
      recommendations := [] }
  { r with recommendations := r.advise }

/-- How many suspicious features a report lists unless it is told otherwise. -/
def defaultMost : Nat := 5

/-! ### Checking reports -/

/-- The number of records of all categories, in 64 bits. -/
def categoryTotal (r : Report) : Nat :=
  r.byCategory.values.foldr (fun c n => (c.total + n) % UInt64.size) 0

/-- Where the counts of a report disagree, if they do.  They are added in 64 bits, so those
of a document agree as well if their sum wraps around to the total. -/
def faultOf? (r : Report) : Option ReportFault :=
  let total := r.total % UInt64.size
  if reportVersion < r.version then some (.newerVersion r.version)
  else if (r.passed + r.failed) % UInt64.size ≠ total then
    some (.outcomes r.passed r.failed r.total)
  else if r.categoryTotal ≠ total then some (.categories r.categoryTotal r.total)
  else none

/-- Whether the grade of the corpus is at least as good as another. -/
def meets (r : Report) (least : Grade) : Bool :=
  r.grade.meets least

end Report

end CorpusAudit
