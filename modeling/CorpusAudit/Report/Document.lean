import CorpusAudit.Report.Basic

/-!
# Reports as documents

A report is written as a document and read again.  A document of an older program may
lack the later parts of a report; it has to have the counts, the grade and the
categories.
-/

namespace CorpusAudit

/-- A moment is given as a time stamp. -/
def Time.decode : Decoder Time.Instant := fun v =>
  (Decode.text v).bind Time.parse?

namespace Recommendation

/-- A recommendation as a value. -/
def toValue (r : Recommendation) : Value :=
  .record [("priority", r.priority.toValue), ("action", .text r.action), ("impact", .text r.impact)]

/-- Read a recommendation as it is written by `toValue`. -/
def decode (d : Decode.Dialect) : Decoder Recommendation := fun v => do
  let fs ← Decode.fields d ["priority", "action", "impact"] true v
  let priority ← fs.required "priority" (Priority.decode d)
  let action ← fs.required "action" Decode.text
  let impact ← fs.required "impact" Decode.text
  some ⟨priority, action, impact⟩

end Recommendation

namespace Report

/-- A report as a value. -/
def toValue (r : Report) : Value :=
  .record [
    ("schema_version", .nat r.version),
    ("generated_at", .text r.generatedAt.stamp),
    ("total", .nat r.total),
    ("passed", .nat r.passed),
    ("failed", .nat r.failed),
    ("undetermined", .nat r.undetermined),
    ("transpiled", .nat r.transpiled),
    ("pass_rate", .ofOption .float r.passRate),
    ("grade", r.grade.toValue),
    ("by_category", .record (r.byCategory.entries.map fun e => (e.1, e.2.toValue))),
    ("risk_distribution", r.risks.toValue .nat),
    ("top_suspicious", .list (r.suspicious.map Suspicion.toValue)),
    ("recommendations", .list (r.recommendations.map Recommendation.toValue))]

/-- Read a report as it is written by `toValue`; the parts that were added later may be
missing. -/
def decode : Decoder Report := fun v => do
  let fs ← Decode.fields .json ["schema_version", "generated_at", "total", "passed", "failed",
    "undetermined", "transpiled", "pass_rate", "grade", "by_category", "risk_distribution",
    "top_suspicious", "recommendations"] true v
  let version ← fs.required "schema_version" (Decode.natBelow UInt32.size)
  let generatedAt ← fs.required "generated_at" Time.decode
  let total ← fs.required "total" Decode.count
  let passed ← fs.required "passed" Decode.count
  let failed ← fs.required "failed" Decode.count
  let undetermined ← fs.required "undetermined" Decode.count
  let transpiled ← fs.orElse "transpiled" Decode.count 0
  let passRate ← fs.optional "pass_rate" Decode.float
  let grade ← fs.required "grade" (Grade.decode .json)
  let byCategory ← fs.required "by_category" (Decode.table (CategoryResult.decode .json))
  let risks ← fs.orElse "risk_distribution" (ByTier.decode Decode.count) (.of fun _ => none)
  let suspicious ← fs.orElse "top_suspicious" (Decode.list (Suspicion.decode .json)) []
  let recommendations ← fs.orElse "recommendations"
    (Decode.list (Recommendation.decode .json)) []
  some { version, generatedAt, total, passed, failed, undetermined, transpiled, passRate, grade,
         byCategory, risks, suspicious, recommendations }

variable {m : Type → Type} [Monad m] [Storage m]

/-- Read a report from a file and check its counts. -/
def load (p : Path) : ExceptT Fault m Report := do
  let r ← Storage.readJson decode p
  match r.faultOf? with
  | some e => throw (.input p (.report e))
  | none => pure r

end Report

end CorpusAudit
