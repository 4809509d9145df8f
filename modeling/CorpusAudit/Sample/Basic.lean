import CorpusAudit.Hash.Blake3
import CorpusAudit.Random.Draw
import CorpusAudit.Review.Item
import CorpusAudit.Sample.Allocation

/-!
# Samples

A sample for review is drawn category by category: the identifiers of a category are
sorted, and as many of them are drawn as the allocation says, from a stream of random
words that depends on nothing but the seed and the category.  So a sample depends on
the records alone, not on their order, and what is drawn of one category does not
depend on the others.
-/

namespace CorpusAudit

/-- What was drawn. -/
structure Selection where
  /-- How many records of each category were drawn. -/
  counts : Table Nat
  /-- The identifiers of the records, in ascending order. -/
  ids : List String
deriving DecidableEq, Repr

namespace Selection

/-- Texts in ascending order. -/
def sort (ids : List String) : List String :=
  ids.mergeSort fun a b => decide (a ≤ b)

/-- Draw a fraction of the identifiers of one category. -/
def ofCategory (a : Allocation) (fraction : Nat) (s : Random.Stream) (ids : List String) :
    List String :=
  Random.choose s (a.allocate ids.length fraction) (sort ids)

/-- Draw a fraction, in millionths, of the records of every category, each with a stream
of its own. -/
def ofRecords (a : Allocation) (fraction : Nat) (streams : String → Random.Stream)
    (records : List Record) : Selection :=
  let strata := (Table.groupBy Record.category records).map fun rs => rs.map Record.id
  { counts := strata.map fun ids => a.allocate ids.length fraction
    ids := sort (strata.entries.flatMap fun e => ofCategory a fraction (streams e.1) e.2) }

end Selection

/-- The settings of a sample. -/
structure Sampler where
  fraction : Float
  /-- The fraction in millionths. -/
  millionths : Nat
  seed : Nat
  allocation : Allocation
deriving DecidableEq, Repr

namespace Sampler

/-- A fraction in millionths, to the nearest. -/
def millionthsOf (fraction : Float) : Nat :=
  (Decimal.Binary.ofFloat (fraction * Float.ofNat Allocation.million)).nearest

/-- The settings for a fraction above zero and up to one. -/
def of (fraction : Float) (seed : Nat) (allocation : Allocation) :
    Except ConfigurationFault Sampler :=
  if !(fraction > 0 && fraction ≤ 1) then .error (.fractionRange fraction)
  else if millionthsOf fraction = 0 then .error (.fractionResolution fraction)
  else .ok ⟨fraction, millionthsOf fraction, seed, allocation⟩

/-- The seed of a category: the first eight bytes of a hash. -/
def categorySeed (seed : Nat) (category : String) : Nat :=
  Word.ofBytes ((Hash.Blake3.digest (Word.toBytes 8 seed ++ Text.encode category)).take 8)

/-- The random words for a category. -/
def stream (s : Sampler) (category : String) : Random.Stream :=
  Random.seeded (UInt64.ofNat (categorySeed s.seed category))

/-- Draw records. -/
def select (s : Sampler) (records : List Record) : Selection :=
  .ofRecords s.allocation s.millionths s.stream records

end Sampler

/-- A sample, ready for review. -/
structure Sample where
  sampler : Sampler
  /-- The quarter of the year in which the sample was drawn. -/
  period : String
  generatedAt : Time.Instant
  selection : Selection
  items : List ReviewItem
deriving DecidableEq, Repr

namespace Sample

/-- The review that a drawn record is waiting for. -/
def item? (c : LabeledCorpus) (id : String) : Option ReviewItem :=
  (c.records.reverse.find? (·.id = id)).map fun r =>
    .pending id r.category (some (c.rules.label r).tier)

/-- Draw a sample of a labelled corpus. -/
def draw (s : Sampler) (c : LabeledCorpus) (now : Time.Instant) : Sample :=
  let selection := s.select c.records
  { sampler := s
    period := now.quarter
    generatedAt := now
    selection
    items := selection.ids.filterMap (item? c) }

/-- Where a sample is written unless another place is given. -/
def defaultPath (folder : Path) (now : Time.Instant) : Path :=
  folder.join ⟨now.quarter ++ "-sample.json"⟩

/-- A sample as a value. -/
def toValue (s : Sample) : Value :=
  .record [
    ("seed", .nat s.sampler.seed),
    ("fraction", .float s.sampler.fraction),
    ("policy", s.sampler.allocation.toValue),
    ("period", .text s.period),
    ("generated_at", .text s.generatedAt.stamp),
    ("stratum_counts", .record (s.selection.counts.entries.map fun e => (e.1, .nat e.2))),
    ("record_ids", .list (s.selection.ids.map .text)),
    ("checklist", .list (checklist.map Check.toValue)),
    ("items", .list (s.items.map ReviewItem.toValue))]

end Sample

end CorpusAudit
