import CorpusAudit.Report.Document
import CorpusAudit.Text.Layout

/-!
# Printing reports

A report is printed as a table of categories in plain text, or as Markdown.
-/

namespace CorpusAudit.Report

/-- A rate in percent, or a dash if there is none. -/
def percent : Option Float → String
  | some x => Decimal.fixed 1 (x * 100) ++ "%"
  | none => "-"

/-! ### Plain text -/

/-- The line of a category in the table. -/
def categoryLine (category : String) (r : CategoryResult) : String :=
  "  " ++ Text.padRight 20 category ++ " " ++ Text.padLeft 8 (toString r.passed) ++ " "
    ++ Text.padLeft 8 (toString r.failed) ++ " " ++ Text.padLeft 8 (percent r.passRate) ++ " "
    ++ r.grade.symbol ++ " " ++ r.grade.icon

/-- A line of headings, or of rules below them. -/
def headingLine (category passed failed rate grade : String) : String :=
  "  " ++ Text.padRight 20 category ++ " " ++ Text.padRight 8 passed ++ " " ++ Text.padRight 8 failed
    ++ " " ++ Text.padRight 8 rate ++ " " ++ Text.padRight 6 grade

/-- The lines on the most suspicious features. -/
def suspicionLines (r : Report) : List String :=
  if r.suspicious.isEmpty then []
  else "" :: "Most suspicious features:" :: r.suspicious.map fun s =>
    "  " ++ Text.padRight 20 s.feature.name ++ " " ++ Decimal.fixed 3 s.score
      ++ s!"  ({s.counts.failedWith} failing, {s.counts.passedWith} passing)"

/-- The lines on what should be done. -/
def recommendationLines (r : Report) : List String :=
  if r.recommendations.isEmpty then []
  else "" :: "Recommendations:" :: r.recommendations.map fun c =>
    "  • [" ++ c.priority.name ++ "] " ++ c.action

/-- A report as plain text. -/
def text (r : Report) : String :=
  Text.unlines (
    ["Corpus Quality Report", Text.rule '═' 64, "",
      headingLine "Category" "Passed" "Failed" "Rate" "Grade",
      headingLine (Text.rule '─' 20) (Text.rule '─' 8) (Text.rule '─' 8) (Text.rule '─' 8)
        (Text.rule '─' 6)]
      ++ r.byCategory.entries.map (fun e => categoryLine e.1 e.2)
      ++ ["", Text.rule '─' 64,
        s!"Total: {r.total}  Passed: {r.passed}  Failed: {r.failed} ({r.undetermined} undetermined)",
        "Pass rate: " ++ percent r.passRate ++ "  Grade: " ++ r.grade.symbol ++ " " ++ r.grade.icon]
      ++ r.suspicionLines ++ r.recommendationLines)

/-! ### Markdown -/

/-- The row of a category in the table of categories. -/
def categoryRow (category : String) (c : CategoryResult) : String :=
  s!"| {category} | {c.passed} | {c.failed} | " ++ percent c.passRate ++ " | " ++ c.grade.symbol
    ++ " |"

/-- A heading of the second level between empty lines. -/
def heading (title : String) : List String :=
  ["", "## " ++ title, ""]

/-- A report as Markdown. -/
def markdown (r : Report) : String :=
  Text.unlines (
    ["# Corpus Quality Report", "", "Generated: " ++ r.generatedAt.stampWithOffset]
      ++ heading "Key Metrics"
      ++ ["| Metric | Value |",
        "|--------|-------|",
        s!"| total | {r.total} |",
        s!"| passed | {r.passed} |",
        s!"| failed | {r.failed} |",
        s!"| undetermined | {r.undetermined} |",
        "| pass_rate | " ++ percent r.passRate ++ " |",
        "| success_rate | " ++ Decimal.fixed 1 r.successRate ++ "% |",
        "| grade | " ++ r.grade.symbol ++ " |"]
      ++ heading "Categories"
      ++ ["| Category | Passed | Failed | Rate | Grade |",
        "|----------|--------|--------|------|-------|"]
      ++ r.byCategory.entries.map (fun e => categoryRow e.1 e.2)
      ++ heading "Risk Distribution"
      ++ Tier.all.map (fun t => s!"- **{t.name}**: {r.ofTier t}")
      ++ heading "Top Blocking Patterns"
      ++ r.suspicious.map (fun s =>
        s!"- {s.feature.name}: " ++ Decimal.fixed 3 s.score
          ++ s!" ({s.counts.failedWith} affected)")
      ++ heading "Recommendations"
      ++ (r.recommendations.take 5).zipIdx.map fun (c, i) =>
        s!"{i + 1}. [{c.priority.name}] {c.action}")

end CorpusAudit.Report
