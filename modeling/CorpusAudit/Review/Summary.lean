import CorpusAudit.Review.Item
import CorpusAudit.Text.Layout

/-!
# Summaries of reviews

A `ReviewSummary` counts the reviews by their status and lists the checks that fail most
often.  It is made from a list of reviews, or from the review files of a directory;
files that cannot be read are left out.
-/

namespace CorpusAudit

/-- What came out of reviews. -/
structure ReviewSummary where
  total : Nat
  /-- How many reviews have each status. -/
  statuses : ReviewStatus → Nat
  /-- The part of the reviews that approve, in percent with one digit after the point. -/
  approvalRate : Float
  /-- The checks that fail most often, with the number of failures. -/
  failures : List (String × Nat)
  files : List Path
  generatedAt : Time.Instant

namespace ReviewSummary

/-- The checks that failed in a review. -/
def failedChecks (i : ReviewItem) : List String :=
  (i.checks.entries.filter fun e => e.2 = some false).map (·.1)

/-- How often each check failed. -/
def countFailures (items : List ReviewItem) : Table Nat :=
  (items.flatMap failedChecks).foldl (fun t c => t.alter c fun n => n.getD 0 + 1) Table.empty

/-- The checks that failed, those that failed most often first and equal ones in the
order of their names. -/
def rankFailures (failures : Table Nat) : List (String × Nat) :=
  failures.entries.mergeSort fun a b => b.2 < a.2 || a.2 = b.2 && a.1 ≤ b.1

/-- How many failing checks are listed. -/
def mostFailures : Nat := 5

/-- The part that `approved` is of `total`, in percent with one digit after the point. -/
def rate (approved total : Nat) : Float :=
  if total = 0 then 0 else (Float.ofNat approved * 1000 / Float.ofNat total).round / 10

/-- The summary of reviews that were read from the given files. -/
def ofItems (items : List ReviewItem) (files : List Path) (now : Time.Instant) : ReviewSummary :=
  let statuses s := items.countP fun i => i.status = s
  { total := items.length
    statuses
    approvalRate := rate (statuses .approved) items.length
    failures := (rankFailures (countFailures items)).take mostFailures
    files
    generatedAt := now }

/-- Read the reviews of a file, whose other parts do not matter. -/
def decodeFile : Decoder (List ReviewItem) := fun v => do
  let fs ← Decode.fields .json ["items"] true v
  fs.orElse "items" (Decode.list ReviewItem.decode) []

/-- The names of review files among the names in a directory, in ascending order. -/
def reviewFiles (names : List String) : List String :=
  (names.filter fun n => ".json".toList.isSuffixOf n.toList).mergeSort fun a b => decide (a ≤ b)

/-- The paths by which a search finds names in a directory. -/
def pathsIn (folder : Path) (names : List String) : List Path :=
  match folder.searched? with
  | some place => names.filterMap place.descend
  | none => []

variable {m : Type → Type} [Monad m] [Storage m]

/-- Read the files that hold reviews, each with its reviews. -/
def readAll : List Path → ExceptT Fault m (List (Path × List ReviewItem))
  | [] => pure []
  | p :: ps => do
    let found : Option (List ReviewItem) ←
      tryCatch (do return some (← Storage.readJson decodeFile p)) fun _ => pure none
    let more ← readAll ps
    pure (match found with
      | some items => (p, items) :: more
      | none => more)

/-- The summary of the review files in a directory. -/
def ofDirectory (folder : Path) (now : Time.Instant) : ExceptT Fault m ReviewSummary := do
  if !(← (Storage.isDirectory folder : m Bool)) then throw (.input folder .noReviews)
  let names ← Storage.located folder (Storage.list folder)
  let read ← readAll (pathsIn folder (reviewFiles names))
  pure (ofItems (read.flatMap (·.2)) (read.map (·.1)) now)

/-- A summary as a value. -/
def toValue (s : ReviewSummary) : Value :=
  .record [
    ("total_reviewed", .nat s.total),
    ("status_breakdown", .record (ReviewStatus.all.map fun t => (t.name, .nat (s.statuses t)))),
    ("approval_rate", .float s.approvalRate),
    ("top_failures", .list (s.failures.map fun e => .list [.text e.1, .nat e.2])),
    ("files", .list (s.files.map fun p => .text p.text)),
    ("generated_at", .text s.generatedAt.stamp)]

/-- A summary as a text. -/
def text (s : ReviewSummary) : String :=
  let bar := Text.rule '━' 50
  let failures :=
    if s.failures.isEmpty then []
    else "" :: "Top failing checks:" :: s.failures.map fun e => s!"  {e.1}: {e.2}"
  Text.unlines (
    [bar, "HITL REVIEW SUMMARY", bar, s!"Files: {s.files.length}", s!"Total reviewed: {s.total}",
      "Approval rate: " ++ Decimal.fixed 1 s.approvalRate ++ "%", "", "Status breakdown:"]
      ++ ReviewStatus.all.map (fun t => s!"  {t.name}: {s.statuses t}")
      ++ failures ++ [bar])

end ReviewSummary

/-- Guidance for reviews, as Markdown. -/
def reviewGuide : String :=
  Text.unlines (
    ["# HITL Review Guide", "", "## Overview", "",
      "Reviewers inspect a stratified sample of transpiled examples to find",
      "anti-patterns that automated tests cannot catch.", "",
      "## Review Checklist", ""]
      ++ checklist.flatMap (fun c =>
        [s!"### {c.severity.icon} {c.id}", s!"**Severity:** {c.severity.title}", "",
          c.description, ""])
      ++ ["## Status Values", "",
        "- `pending`: Not yet reviewed",
        "- `approved`: Passes all critical/high checks",
        "- `needs_work`: Has issues that need fixing",
        "- `rejected`: Has critical anti-patterns"])

end CorpusAudit
