import CorpusAudit.Decimal.Rounding
import CorpusAudit.Insight.Basic
import CorpusAudit.Text.Layout

/-!
# Writing insights

Insights are written as a document and as a text.
-/

namespace CorpusAudit

/-- The insight on a category as a value. -/
def CategoryInsight.toValue (i : CategoryInsight) : Value :=
  .record [
    ("category", .text i.category),
    ("group", .text i.group),
    ("records", .nat i.records),
    ("blocking_features", .list (i.blocking.map fun f => .text f.name)),
    ("impact_score", .float i.impact),
    ("recommendation", .text i.recommendation)]

/-- The insight on a feature as a value. -/
def FeatureInsight.toValue (i : FeatureInsight) : Value :=
  .record [
    ("feature", .text i.feature.name),
    ("priority", i.priority.toValue),
    ("affected_records", .nat i.affected),
    ("suspiciousness", .float i.suspiciousness),
    ("impact", .float i.impact),
    ("action", .text i.action)]

namespace InsightReport

/-- Insights as a value. -/
def toValue (r : InsightReport) : Value :=
  .record [
    ("generated_at", .text r.generatedAt.stamp),
    ("formula", .text r.formula.name),
    ("zero_success", .list (r.zeroSuccess.map CategoryInsight.toValue)),
    ("groups", .record (r.groups.entries.map fun e => (e.1, .list (e.2.map .text)))),
    ("feature_priorities", .list (r.features.map FeatureInsight.toValue))]

/-- The lines on a category. -/
def categoryLines (i : CategoryInsight) : List String :=
  let features := ", ".intercalate (i.blocking.map Feature.name)
  ["  " ++ Text.padRight 24 i.category ++ " [" ++ i.group ++ "] impact "
      ++ Decimal.fixed 2 i.impact ++ "  " ++ features,
    "    └── " ++ i.recommendation]

/-- The line on a feature. -/
def featureLine (i : FeatureInsight) : String :=
  "  [" ++ i.priority.name ++ "] " ++ Text.padRight 20 i.feature.name ++ s!" {i.affected} records × "
    ++ Decimal.fixed 3 i.suspiciousness ++ " = " ++ Decimal.fixed 2 i.impact

/-- Insights as a text. -/
def text (r : InsightReport) : String :=
  let features :=
    if r.features.isEmpty then [] else "" :: "Feature priorities:" :: r.features.map featureLine
  Text.unlines (
    [s!"Zero-success categories: {r.zeroSuccess.length}", Text.rule '─' 64]
      ++ r.zeroSuccess.flatMap categoryLines ++ features)

end InsightReport

end CorpusAudit
