import CorpusAudit.Fault
import CorpusAudit.Rule.Basic
import CorpusAudit.Suspicion.Spectrum

/-!
# Rankings of features

The features of the schema are ranked by their suspiciousness, the most suspicious first;
features that are equally suspicious stand in the order of their names.
-/

namespace CorpusAudit

/-- How suspicious a feature is, with the counts from which this was computed. -/
structure Suspicion where
  feature : Feature
  score : Float
  counts : FeatureCount
deriving DecidableEq, Repr

namespace Suspicion

/-- Larger scores come first, and equal ones in the order of the names. -/
def isBefore (a b : Suspicion) : Bool :=
  match Decimal.compareDescending a.score b.score with
  | .lt => true
  | .eq => a.feature.name ≤ b.feature.name
  | .gt => false

/-- A suspicion as a value. -/
def toValue (s : Suspicion) : Value :=
  .record [
    ("feature_name", .text s.feature.name),
    ("score", .float s.score),
    ("failed_with", .nat s.counts.failedWith),
    ("passed_with", .nat s.counts.passedWith),
    ("total_failed", .nat s.counts.totalFailed),
    ("total_passed", .nat s.counts.totalPassed)]

/-- Read a suspicion as it is written by `toValue`. -/
def decode (d : Decode.Dialect) : Decoder Suspicion := fun v => do
  let fs ← Decode.fields d ["feature_name", "score", "failed_with", "passed_with", "total_failed",
    "total_passed"] true v
  let feature ← fs.required "feature_name" (Feature.decode d)
  let score ← fs.required "score" Decode.float
  let failedWith ← fs.required "failed_with" Decode.count
  let passedWith ← fs.required "passed_with" Decode.count
  let totalFailed ← fs.required "total_failed" Decode.count
  let totalPassed ← fs.required "total_passed" Decode.count
  some ⟨feature, score, ⟨failedWith, passedWith, totalFailed, totalPassed⟩⟩

end Suspicion

namespace Spectrum

/-- How suspicious a feature is in a spectrum. -/
def suspicion (s : Spectrum) (formula : Formula) (f : Feature) : Suspicion :=
  ⟨f, (s.feature f).score formula, s.feature f⟩

/-- The features by their suspiciousness, the most suspicious first. -/
def rank (s : Spectrum) (formula : Formula) : List Suspicion :=
  (Feature.all.toList.map (s.suspicion formula)).mergeSort Suspicion.isBefore

end Spectrum

/-- The features ranked over records; there is no ranking if no record has an outcome. -/
def rankFeatures (formula : Formula) (records : List Record) :
    Except ComputationFault (List Suspicion) :=
  let s := Spectrum.collect records
  if s.outcomes = 0 then .error (.noOutcomes records.length) else .ok (s.rank formula)

end CorpusAudit
