import CorpusAudit.Corpus.Row
import CorpusAudit.Fault

/-!
# Corpora

A `Corpus` is the list of the records of a table, with an account of its rows.  A
`Collector` takes the rows one after the other: those that are rejected are counted and
left out.  A table is no corpus if all its rows miss one column, or if too many rows are
rejected (`Collector.finish`).
-/

namespace CorpusAudit

/-- An account of the rows of a table. -/
structure RowCount where
  total : Nat
  loaded : Nat
  skipped : Nat
  /-- How many rows were skipped for each reason. -/
  reasons : Table Nat
deriving DecidableEq, Repr, Inhabited

/-- The part of the rows that was skipped. -/
def RowCount.skipRatio (n : RowCount) : Float :=
  if n.total = 0 then 0 else Float.ofNat n.skipped / Float.ofNat n.total

/-- The records of a table, in its order. -/
structure Corpus where
  records : List Record
  rows : RowCount
deriving DecidableEq, Repr, Inhabited

/-- The corpus of records that are there already. -/
def Corpus.ofRecords (records : List Record) : Corpus :=
  ⟨records, ⟨records.length, records.length, 0, Table.empty⟩⟩

/-! ### The columns of a table -/

/-- Which columns the objects among the rows have. -/
structure Presence where
  /-- How many rows are objects. -/
  objects : Nat
  /-- The columns that one of them has. -/
  seen : List Column
deriving DecidableEq, Repr, Inhabited

namespace Presence

/-- No row was seen. -/
def none : Presence :=
  ⟨0, []⟩

/-- Look at one more row; only objects have columns. -/
def observe (p : Presence) (row : Option Value) : Presence :=
  match Row.fields? row with
  | some fields =>
    ⟨p.objects + 1, Column.all.filter fun c => p.seen.contains c || Row.hasColumn fields c⟩
  | .none => p

/-- The first column that no row has, provided that there are objects among the rows. -/
def firstAbsent? (p : Presence) : Option Column :=
  if p.objects = 0 then .none else Column.firstAbsent? p.seen.contains

end Presence

/-! ### Collecting rows -/

namespace RowCount

/-- The account of no rows. -/
def zero : RowCount :=
  ⟨0, 0, 0, Table.empty⟩

/-- Count a row that was taken. -/
def accept (n : RowCount) : RowCount :=
  { n with total := n.total + 1, loaded := n.loaded + 1 }

/-- Count a row that was rejected. -/
def reject (n : RowCount) (e : RowFault) : RowCount :=
  { n with
    total := n.total + 1
    skipped := n.skipped + 1
    reasons := n.reasons.alter e.reason fun k => k.getD 0 + 1 }

end RowCount

/-- What was gathered from the rows of a table so far. -/
structure Collector where
  /-- The identifiers of the records, the last first. -/
  taken : List String
  records : Array Record
  presence : Presence
  rows : RowCount
deriving DecidableEq, Repr, Inhabited

namespace Collector

/-- Nothing was gathered. -/
def start : Collector :=
  ⟨[], #[], .none, .zero⟩

/-- Take the record of a row. -/
def accept (c : Collector) (r : Record) : Collector :=
  { c with taken := r.id :: c.taken, records := c.records.push r, rows := c.rows.accept }

/-- Leave out a row. -/
def reject (c : Collector) (e : RowFault) : Collector :=
  { c with rows := c.rows.reject e }

/-- Go on with one more row.  It is taken if it is read as a record and no record before
it has its identifier; its columns count even if it is rejected. -/
def push (c : Collector) (row : Option Value) : Collector :=
  let c := { c with presence := c.presence.observe row }
  match Row.read row with
  | .error e => c.reject e
  | .ok r => if c.taken.contains r.id then c.reject .duplicateId else c.accept r

/-- What is gathered from all rows of a table. -/
def collect (rows : List (Option Value)) : Collector :=
  rows.foldl push start

/-- The corpus that was gathered; `limit` is the part of the rows that may be rejected.  A
column that is missing everywhere is told first. -/
def finish (c : Collector) (limit : Float) : Except SchemaFault Corpus :=
  match c.presence.firstAbsent? with
  | some column => .error (.missingColumn column.name)
  | .none =>
    let n := c.rows
    if n.skipRatio > limit then
      .error (.tooManySkipped n.skipped n.total (n.skipRatio * 100) (limit * 100))
    else .ok ⟨c.records.toList, n⟩

end Collector

/-- The corpus of a table. -/
def Corpus.ofRows (limit : Float) (rows : List (Option Value)) : Except SchemaFault Corpus :=
  (Collector.collect rows).finish limit

end CorpusAudit
