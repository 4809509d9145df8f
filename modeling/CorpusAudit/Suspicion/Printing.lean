import CorpusAudit.Suspicion.Ranking
import CorpusAudit.Text.Layout

/-!
# Printing rankings

A ranking of features is printed with a line for every feature, as plain text or as a
table in Markdown, or as a document.
-/

namespace CorpusAudit.Suspicion

/-- A ranking as a value. -/
def rankingValue (ranking : List Suspicion) : Value :=
  .list (ranking.map toValue)

/-- The line of the feature at the given place, counted from zero. -/
def line (s : Suspicion) (place : Nat) : String :=
  "  " ++ Text.padLeft 2 (toString (place + 1)) ++ ". " ++ Text.padRight 20 s.feature.name ++ " "
    ++ Decimal.fixed 3 s.score
    ++ s!"  failed {s.counts.failedWith}/{s.counts.totalFailed}"
    ++ s!"  passed {s.counts.passedWith}/{s.counts.totalPassed}"

/-- A ranking as plain text. -/
def rankingText (formula : Formula) (ranking : List Suspicion) : String :=
  Text.unlines (
    ["Feature suspiciousness (" ++ formula.title ++ ")", Text.rule '─' 60]
      ++ ranking.zipIdx.map fun (s, i) => s.line i)

/-- The row of the feature at the given place, counted from zero. -/
def row (s : Suspicion) (place : Nat) : String :=
  s!"| {place + 1} | `{s.feature.name}` | " ++ Decimal.fixed 3 s.score
    ++ s!" | {s.counts.failedWith}/{s.counts.totalFailed}"
    ++ s!" | {s.counts.passedWith}/{s.counts.totalPassed} |"

/-- A ranking as Markdown. -/
def rankingMarkdown (formula : Formula) (ranking : List Suspicion) : String :=
  Text.unlines (
    ["# Feature Suspiciousness (" ++ formula.title ++ ")", "",
      "| Rank | Feature | Score | Failed | Passed |",
      "|------|---------|-------|--------|--------|"]
      ++ ranking.zipIdx.map fun (s, i) => s.row i)

end CorpusAudit.Suspicion
