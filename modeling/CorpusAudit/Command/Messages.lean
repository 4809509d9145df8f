import CorpusAudit.Baseline.Store
import CorpusAudit.Gate.Comparison
import CorpusAudit.Golden.Curation
import CorpusAudit.Label.Basic
import CorpusAudit.Sample.Basic

/-!
# Messages

What the commands print beside the results that have a form of their own.
-/

namespace CorpusAudit.Messages

/-- A ratio in percent. -/
def percent (x : Float) : String :=
  Decimal.fixed 1 (x * 100) ++ "%"

/-- A change of a rate in percentage points. -/
def points (x : Float) : String :=
  Decimal.fixedSigned 1 x ++ " pp"

/-- What is being done when settings are read. -/
def readingConfig (p : Path) : String :=
  "Failed to load configuration from " ++ p.text

/-- What is being done when a corpus is read. -/
def readingCorpus (p : Path) : String :=
  "Failed to load corpus " ++ p.text

/-- What is being done when a result is written. -/
def writing (p : Path) : String :=
  "Failed to write " ++ p.text

/-- Where a result is. -/
def written (p : Path) : String :=
  "Written to " ++ p.text

/-- That rows of a corpus were skipped. -/
def skipped (rows : RowCount) : String :=
  s!"Skipped {rows.skipped} of {rows.total} rows (" ++ percent rows.skipRatio ++ ")"

/-- The line of a tier. -/
def tierLine (s : LabelStatistics) (t : Tier) : String :=
  "  " ++ t.name ++ " " ++ Text.padRight 6 t.name ++ " " ++ Text.padLeft 6 (toString (s.ofTier t))
    ++ "  " ++ percent (s.counts.tiers.get t).successRate ++ " transpiled"

/-- What labels came out. -/
def labeled (s : LabelStatistics) : List String :=
  (s!"Labeled {s.counts.total} records (coverage " ++ percent s.coverage
    ++ s!", {s.counts.conflicts} conflicts)") :: Tier.all.map (tierLine s)

/-- That the grade of a report is not good enough. -/
def belowGrade (actual least : Grade) : String :=
  "QUALITY GATE FAILED: grade " ++ actual.symbol ++ " is below the required " ++ least.symbol

/-- How the figures of two reports differ. -/
def delta (baseline current : Report) : String :=
  let d := ReportDelta.between baseline current
  "Pass rate: " ++ points d.passRate ++ " (" ++ baseline.grade.symbol ++ " → "
    ++ current.grade.symbol ++ "), records " ++ Text.signed d.total

/-- That nothing has ceased to pass. -/
def noRegressions : String :=
  "✅ No regressions"

/-- That something has ceased to pass. -/
def regressions (c : Comparison) : String :=
  s!"❌ REGRESSION DETECTED: {c.regressed.length} regressed"

/-- How a report differs from the baseline that it replaces. -/
def previousBaseline (b : Baseline) (r : Report) : String :=
  "Previous baseline " ++ b.shortDigest ++ " (" ++ b.report.grade.symbol ++ "), pass rate "
    ++ points (ReportDelta.between b.report r).passRate

/-- What the baseline is now. -/
def newBaseline (p : Path) (b : Baseline) : String :=
  "Baseline updated: " ++ p.text ++ " (grade " ++ b.report.grade.symbol ++ ", digest "
    ++ b.shortDigest ++ ")"

/-- What was drawn. -/
def sampled (s : Sample) : List String :=
  let counts := s.selection.counts.entries
  s!"Sampled {s.selection.ids.length} records from {counts.length} categories ({s.period})"
    :: counts.map fun e => "  " ++ Text.padRight 24 e.1 ++ s!" {e.2}"

/-- What was picked for each target. -/
def curated (targets : List Target) (traces : List Trace) : List String :=
  let line (t : Target) : String :=
    let picked := traces.countP fun trace => trace.code = t.code
    "  " ++ Text.padRight 8 t.code ++ s!" {picked}/{t.quota}"
  s!"Curated {traces.length} golden traces" :: targets.map line

end CorpusAudit.Messages
