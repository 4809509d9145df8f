import CorpusAudit.Report.Document
import CorpusAudit.Risk

/-!
# Review items

A person who reviews a record goes through a checklist and gives the record a status.  A
`ReviewItem` holds both; checks that were not made yet have no result.
-/

namespace CorpusAudit

/-- How bad it is to fail a check. -/
inductive Severity where
  | critical
  | high
  | medium
  | low
deriving DecidableEq, Repr

namespace Severity

/-- The name of a severity in documents. -/
def name : Severity → String
  | .critical => "critical"
  | .high => "high"
  | .medium => "medium"
  | .low => "low"

/-- The name of a severity in texts. -/
def title : Severity → String
  | .critical => "CRITICAL"
  | .high => "HIGH"
  | .medium => "MEDIUM"
  | .low => "LOW"

/-- The icon of a severity. -/
def icon : Severity → String
  | .critical => "🔴"
  | .high => "🟠"
  | .medium => "🟡"
  | .low => "🟢"

end Severity

/-- Something to check in a review. -/
structure Check where
  id : String
  description : String
  severity : Severity
deriving DecidableEq, Repr

/-- A check as a value. -/
def Check.toValue (c : Check) : Value :=
  .record [("id", .text c.id), ("description", .text c.description),
    ("severity", .text c.severity.name)]

/-- The checks of a review, the most severe first. -/
def checklist : List Check := [
  ⟨"no_unsafe", "No unnecessary `unsafe` blocks", .critical⟩,
  ⟨"minimal_cloning", "Minimal cloning (prefer borrowing)", .high⟩,
  ⟨"idiomatic_error_handling",
    "Idiomatic error handling (Result/Option, no unwrap in lib code)", .high⟩,
  ⟨"iterator_usage", "Appropriate use of iterators (no explicit loops where iter works)",
    .medium⟩,
  ⟨"no_pythonisms", "No Python-isms (Arc<Mutex<>> overuse, String everywhere)", .medium⟩,
  ⟨"proper_lifetimes", "Proper lifetime annotations where needed", .medium⟩,
  ⟨"no_magic_numbers", "No magic numbers (use constants)", .low⟩,
  ⟨"documentation", "Public APIs have doc comments", .low⟩]

/-- How far the review of a record is. -/
inductive ReviewStatus where
  | pending
  | approved
  | needsWork
  | rejected
deriving DecidableEq, Repr, Inhabited

namespace ReviewStatus

/-- All states of a review. -/
def all : List ReviewStatus :=
  [.pending, .approved, .needsWork, .rejected]

/-- The name of a status in all outputs. -/
def name : ReviewStatus → String
  | .pending => "pending"
  | .approved => "approved"
  | .needsWork => "needs_work"
  | .rejected => "rejected"

/-- The status with the given name. -/
def ofName? (s : String) : Option ReviewStatus :=
  all.find? (·.name = s)

/-- Every status is found by its name. -/
theorem ofName?_name (s : ReviewStatus) :
  ofName? s.name = some s
  := by
  cases s <;> decide +kernel

/-- A status is given by its name. -/
def decode (d : Decode.Dialect) : Decoder ReviewStatus :=
  Decode.choice d ofName?

end ReviewStatus

/-- The review of a record. -/
structure ReviewItem where
  recordId : String
  category : String
  tier : Option Tier
  status : ReviewStatus
  /-- The results of the checks, by their identifiers. -/
  checks : Table (Option Bool)
  notes : String
  reviewer : Option String
  reviewedAt : Option Time.Instant
deriving DecidableEq, Repr

namespace ReviewItem

/-- A record that is yet to be reviewed. -/
def pending (recordId category : String) (tier : Option Tier) : ReviewItem where
  recordId
  category
  tier
  status := .pending
  checks := .ofList (checklist.map fun c => (c.id, none))
  notes := ""
  reviewer := none
  reviewedAt := none

/-- A review as a value. -/
def toValue (i : ReviewItem) : Value :=
  .record [
    ("record_id", .text i.recordId),
    ("category", .text i.category),
    ("risk_tier", .ofOption Tier.toValue i.tier),
    ("review_status", .text i.status.name),
    ("checklist", .record (i.checks.entries.map fun e => (e.1, .ofOption .bool e.2))),
    ("notes", .text i.notes),
    ("reviewer", .ofOption .text i.reviewer),
    ("reviewed_at", .ofOption (fun t => .text t.stamp) i.reviewedAt)]

/-- Read a review as it is written by `toValue`; all but the record and its category may
be missing. -/
def decode : Decoder ReviewItem := fun v => do
  let fs ← Decode.fields .json ["record_id", "category", "risk_tier", "review_status", "checklist",
    "notes", "reviewer", "reviewed_at"] true v
  let recordId ← fs.required "record_id" Decode.text
  let category ← fs.required "category" Decode.text
  let tier ← fs.orElse "risk_tier" (Decode.option (Tier.decode .json)) none
  let status ← fs.orElse "review_status" (ReviewStatus.decode .json) .pending
  let checks ← fs.orElse "checklist" (Decode.table (Decode.option Decode.bool)) Table.empty
  let notes ← fs.orElse "notes" Decode.text ""
  let reviewer ← fs.orElse "reviewer" (Decode.option Decode.text) none
  let reviewedAt ← fs.orElse "reviewed_at" (Decode.option Time.decode) none
  some { recordId, category, tier, status, checks, notes, reviewer, reviewedAt }

end ReviewItem

end CorpusAudit
