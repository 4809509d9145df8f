import CorpusAudit.Corpus.Record
import CorpusAudit.Rule.Set
import CorpusAudit.Tally

/-!
# Statistics of labels

`LabelCount` counts, in one pass over the records, how many of them each tier gets, how
many are matched by a rule other than the catch-all, and for how many the rules of
different tiers compete.  `LabelStatistics` adds the ratios.
-/

namespace CorpusAudit

/-- How many records a tier was given to, and how many of them were transpiled. -/
structure TierCount where
  count : Nat
  transpiled : Nat
deriving DecidableEq, Repr, Inhabited

namespace TierCount

/-- Count one more record. -/
def observe (n : TierCount) (transpiled : Bool) : TierCount :=
  ⟨n.count + 1, n.transpiled + if transpiled then 1 else 0⟩

/-- The sum of two counts. -/
def add (a b : TierCount) : TierCount :=
  ⟨a.count + b.count, a.transpiled + b.transpiled⟩

/-- The part of the records that were transpiled. -/
def successRate (n : TierCount) : Float :=
  if n.count = 0 then 0 else Float.ofNat n.transpiled / Float.ofNat n.count

end TierCount

/-- Counts of labelled records. -/
structure LabelCount where
  total : Nat
  /-- Records that a rule other than the catch-all matches. -/
  covered : Nat
  /-- Records that such rules of different tiers match. -/
  conflicts : Nat
  tiers : ByTier TierCount
deriving DecidableEq, Repr, Inhabited

namespace LabelCount

/-- Whether rules of different tiers match, the catch-all left aside. -/
def hasConflict (rules : RuleSet) (features : FeatureSet) : Bool :=
  match ((rules.matching features).filter fun r => !r.condition.isCatchAll).map Rule.tier with
  | [] => false
  | t :: ts => ts.any (· ≠ t)

/-- The counts of no records. -/
def zero : LabelCount :=
  ⟨0, 0, 0, .of fun _ => ⟨0, 0⟩⟩

/-- Count one more record; its tier is that of the first rule that matches it. -/
def observe (rules : RuleSet) (n : LabelCount) (r : Record) : LabelCount :=
  let first := rules.firstMatch r.features
  { total := n.total + 1
    covered := n.covered + if first.condition.isCatchAll then 0 else 1
    conflicts := n.conflicts + if hasConflict rules r.features then 1 else 0
    tiers := .of fun t =>
      if t = first.tier then (n.tiers.get t).observe r.transpiled else n.tiers.get t }

/-- The counts of two groups of records together. -/
def merge (a b : LabelCount) : LabelCount :=
  { total := a.total + b.total
    covered := a.covered + b.covered
    conflicts := a.conflicts + b.conflicts
    tiers := .of fun t => (a.tiers.get t).add (b.tiers.get t) }

/-- Labelled records are counted one by one. -/
def tally (rules : RuleSet) : Tally Record LabelCount where
  zero := zero
  observe := observe rules
  merge := merge

end LabelCount

/-- Statistics of labelled records. -/
structure LabelStatistics where
  counts : LabelCount
deriving DecidableEq, Repr, Inhabited

namespace LabelStatistics

/-- The statistics of records labelled with a rule set. -/
def collect (rules : RuleSet) (records : List Record) : LabelStatistics :=
  ⟨(LabelCount.tally rules).count records⟩

/-- The number of records of a tier. -/
def ofTier (s : LabelStatistics) (t : Tier) : Nat :=
  (s.counts.tiers.get t).count

/-- The number of records of every tier. -/
def distribution (s : LabelStatistics) : ByTier Nat :=
  .of s.ofTier

/-- The part of the records that a rule other than the catch-all matches. -/
def coverage (s : LabelStatistics) : Float :=
  if s.counts.total = 0 then 0 else Float.ofNat s.counts.covered / Float.ofNat s.counts.total

/-- Statistics as a value. -/
def toValue (s : LabelStatistics) : Value :=
  let success (n : TierCount) : Value :=
    .record [("count", .nat n.count), ("transpiled", .nat n.transpiled),
      ("success_rate", .float n.successRate)]
  .record [
    ("total", .nat s.counts.total),
    ("distribution", .record (Tier.all.map fun t => (t.name, .nat (s.ofTier t)))),
    ("coverage", .float s.coverage),
    ("conflicts", .nat s.counts.conflicts),
    ("risk_vs_success", .record (Tier.all.map fun t => (t.name, success (s.counts.tiers.get t))))]

end LabelStatistics

end CorpusAudit
