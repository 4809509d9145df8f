import CorpusAudit.Corpus.Record
import CorpusAudit.Decimal.Reading

/-!
# Error codes

The compiler tells its errors by codes: the letter `E` and four digits.  A
`CodeCount` says how often a code occurs, and in how many records.
-/

namespace CorpusAudit

/-- What is known of the most frequent error codes. -/
def knownCodes : List (String × String) := [
  ("E0308", "Type mismatch"),
  ("E0433", "Failed to resolve (unresolved import)"),
  ("E0599", "Method not found"),
  ("E0425", "Cannot find value"),
  ("E0277", "Trait bound not satisfied"),
  ("E0412", "Cannot find type"),
  ("E0382", "Use of moved value"),
  ("E0507", "Cannot move out of borrowed content"),
  ("E0432", "Unresolved import"),
  ("E0015", "Calls in constants are limited")]

/-- What an error code stands for. -/
def describeCode (code : String) : String :=
  ((knownCodes.find? (·.1 = code)).map (·.2)).getD "Unknown error"

/-- Whether a text has the form of an error code. -/
def isErrorCode (s : List Char) : Bool :=
  match s with
  | 'E' :: digits => digits.length = 4 && digits.all Decimal.isDigit
  | _ => false

/-- The different error codes of a record. -/
def Record.distinctCodes (r : Record) : List String :=
  (Table.ofList (r.errorCodes.map fun c => (c, ()))).keys

/-- How often an error code occurs. -/
structure CodeCount where
  code : String
  /-- The occurrences, repetitions in one record included. -/
  count : Nat
  /-- The records that have the code. -/
  records : Nat
deriving DecidableEq, Repr

namespace CodeCount

/-- Count the codes of one more record, for each code its occurrences and records. -/
def observe (counts : Table (Nat × Nat)) (r : Record) : Table (Nat × Nat) :=
  let occurrences := r.errorCodes.foldl (fun t c => t.alter c fun n =>
    let (count, records) := n.getD (0, 0)
    (count + 1, records)) counts
  r.distinctCodes.foldl (fun t c => t.alter c fun n =>
    let (count, records) := n.getD (0, 0)
    (count, records + 1)) occurrences

/-- Frequent codes come first, and equally frequent ones in the order of the codes. -/
def isBefore (a b : CodeCount) : Bool :=
  b.count < a.count || a.count = b.count && a.code ≤ b.code

/-- How often the codes occur in records, the most frequent first. -/
def summarize (records : List Record) : List CodeCount :=
  let counts := records.foldl observe Table.empty
  (counts.entries.map fun e => ⟨e.1, e.2.1, e.2.2⟩).mergeSort isBefore

/-- A count as a value. -/
def toValue (c : CodeCount) : Value :=
  .record [("code", .text c.code), ("description", .text (describeCode c.code)),
    ("count", .nat c.count), ("records", .nat c.records)]

end CodeCount

end CorpusAudit
