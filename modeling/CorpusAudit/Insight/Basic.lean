import CorpusAudit.Priority
import CorpusAudit.Suspicion.Ranking
import CorpusAudit.Time.Instant

/-!
# Insights

A category without a passing record is a category without success.  The features of its
records are said to block it, and the more suspicious they are, the more there is to
win by supporting them.  An `InsightReport` lists the categories without success and
the features that block them, those with the greatest impact first.
-/

namespace CorpusAudit

/-- The first words of category names that form a group. -/
def groupWords : List String :=
  ["async", "func", "state", "mem", "serial", "typed", "thread"]

/-- The group of a category: the word before the first underscore, if it is one that
forms a group. -/
def categoryGroup (category : String) : String :=
  (groupWords.find? fun w => (w ++ "_").toList.isPrefixOf category.toList).getD "other"

/-- A category without a passing record. -/
structure CategoryInsight where
  category : String
  group : String
  records : Nat
  /-- The features that some record of the category has, in schema order. -/
  blocking : List Feature
  /-- The sum of how suspicious they are. -/
  impact : Float
  recommendation : String
deriving DecidableEq, Repr

/-- A feature that blocks categories. -/
structure FeatureInsight where
  feature : Feature
  priority : Priority
  /-- The records with the feature in categories without success. -/
  affected : Nat
  suspiciousness : Float
  /-- The number of records times the suspiciousness. -/
  impact : Float
  action : String
deriving DecidableEq, Repr

/-- The categories without success, and the features that block them. -/
structure InsightReport where
  generatedAt : Time.Instant
  formula : Formula
  zeroSuccess : List CategoryInsight
  /-- The categories without success by their groups. -/
  groups : Table (List String)
  features : List FeatureInsight
deriving DecidableEq, Repr

/-- Larger impacts come first, and equal ones in the order of the names. -/
def hasPrecedence (impact impact' : Float) (name name' : String) : Bool :=
  match Decimal.compareDescending impact impact' with
  | .lt => true
  | .eq => name ≤ name'
  | .gt => false

namespace CategoryInsight

/-- The features that some record has, in schema order. -/
def blockingFeatures (records : List Record) : List Feature :=
  Feature.all.toList.filter fun f => records.any fun r => r.features.has f

/-- The sum of scores in schema order; the sum of none is the negative zero. -/
def totalScore (score : Feature → Float) (fs : List Feature) : Float :=
  fs.foldl (fun sum f => sum + score f) (-0.0)

/-- The first feature with the greatest score. -/
def topFeature? (score : Feature → Float) : List Feature → Option Feature
  | [] => none
  | f :: fs =>
    match topFeature? score fs with
    | none => some f
    | some g => if Decimal.totalKey (score f) < Decimal.totalKey (score g) then some g else some f

/-- What is recommended for a category that the given features block. -/
def recommend (score : Feature → Float) (fs : List Feature) : String :=
  match topFeature? score fs with
  | some f => s!"Implement '{f.name}' support to unblock this category"
  | none => "Investigate specific failure patterns"

/-- The insight on a category with the given records, none of which passed. -/
def ofRecords (score : Feature → Float) (category : String) (records : List Record) :
    CategoryInsight :=
  let blocking := blockingFeatures records
  { category
    group := categoryGroup category
    records := records.length
    blocking
    impact := totalScore score blocking
    recommendation := recommend score blocking }

end CategoryInsight

/-- The suspiciousness above which a feature has high priority. -/
def urgentScore : Float := 0.7

/-- The insight on a feature that so many records without success have. -/
def FeatureInsight.of (score : Feature → Float) (f : Feature) (affected : Nat) : FeatureInsight where
  feature := f
  priority := if score f > urgentScore then .high else .medium
  affected
  suspiciousness := score f
  impact := Float.ofNat affected * score f
  action := s!"Add support for '{f.name}' pattern"

namespace InsightReport

/-- The suspiciousness of every feature, zero if there is no ranking. -/
def scores (formula : Formula) (records : List Record) : Feature → Float :=
  match rankFeatures formula records with
  | .ok ranking => fun f => ((ranking.find? (·.feature = f)).map (·.score)).getD 0
  | .error _ => fun _ => 0

/-- The categories without a passing record, with their records. -/
def withoutSuccess (records : List Record) : List (String × List Record) :=
  (Table.groupBy Record.category records).entries.filter fun e => !e.2.any Record.isPassing

/-- The features that block categories, with the number of records that have them. -/
def affectedBy (groups : List (String × List Record)) : List (Feature × Nat) :=
  let records := groups.flatMap (·.2)
  (Feature.all.toList.map fun f => (f, records.countP fun r => r.features.has f)).filter
    fun e => e.2 ≠ 0

/-- The insights on the given records. -/
def analyze (formula : Formula) (records : List Record) (now : Time.Instant) : InsightReport :=
  let score := scores formula records
  let failing := withoutSuccess records
  { generatedAt := now
    formula
    zeroSuccess := (failing.map fun e => CategoryInsight.ofRecords score e.1 e.2).mergeSort
      fun a b => hasPrecedence a.impact b.impact a.category b.category
    groups := Table.groupBy categoryGroup (failing.map (·.1))
    features := ((affectedBy failing).map fun e => FeatureInsight.of score e.1 e.2).mergeSort
      fun a b => hasPrecedence a.impact b.impact a.feature.name b.feature.name }

end InsightReport

end CorpusAudit
