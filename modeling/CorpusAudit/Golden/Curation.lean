import CorpusAudit.Golden.Target

/-!
# Curation

For each target in turn, the first records that have its error code are picked, in the
order of a ranking, records that were picked for an earlier target being passed over.
-/

namespace CorpusAudit

/-- The order in which records are picked. -/
inductive Ranking where
  /-- Records with few errors first, and equal ones in the order of their identifiers. -/
  | isolatedFirst
  /-- In the order of the identifiers. -/
  | idOrder
deriving DecidableEq, Repr, Inhabited

namespace Ranking

/-- The name of a ranking in documents and on the command line. -/
def name : Ranking → String
  | .isolatedFirst => "isolated_first"
  | .idOrder => "id_order"

/-- The ranking with the given name. -/
def ofName? (s : String) : Option Ranking :=
  [Ranking.isolatedFirst, .idOrder].find? (·.name = s)

/-- A ranking is given by its name. -/
def decode (d : Decode.Dialect) : Decoder Ranking :=
  Decode.choice d ofName?

/-- Whether a record is picked before another. -/
def isBefore (k : Ranking) (a b : Record) : Bool :=
  match k with
  | .isolatedFirst =>
    a.errorCodes.length < b.errorCodes.length
      || a.errorCodes.length = b.errorCodes.length && a.id ≤ b.id
  | .idOrder => a.id ≤ b.id

end Ranking

/-- A record that was picked for an error code. -/
structure Trace where
  code : String
  recordId : String
  /-- The place among the records of the code, from one. -/
  rank : Nat
  category : String
  /-- How many other error codes the record has. -/
  otherCodes : Nat
deriving DecidableEq, Repr

/-- A trace as a value; its review is yet to come. -/
def Trace.toValue (t : Trace) : Value :=
  .record [
    ("error_code", .text t.code),
    ("record_id", .text t.recordId),
    ("rank", .nat t.rank),
    ("review_status", .text "PENDING"),
    ("description", .text (describeCode t.code)),
    ("category", .text t.category),
    ("co_occurring_codes", .nat t.otherCodes)]

/-- Targets and a ranking by which records are picked for them. -/
structure Curator where
  targets : List Target
  ranking : Ranking
  sound : Target.faultOf? targets = none

namespace Curator

/-- The curator for targets, or why they are refused. -/
def of (targets : List Target) (ranking : Ranking) : Except ConfigurationFault Curator :=
  match h : Target.faultOf? targets with
  | some e => .error e
  | none => .ok ⟨targets, ranking, h⟩

/-- The curator unless targets are given. -/
def default : Curator :=
  ⟨Target.defaults Target.defaultQuota, .isolatedFirst, by decide +kernel⟩

instance : Inhabited Curator := ⟨default⟩

/-- The records that have an error code, in the order of a ranking. -/
def candidates (k : Ranking) (records : List Record) (code : String) : List Record :=
  (records.filter fun r => r.errorCodes.contains code).mergeSort k.isBefore

/-- The records picked for a target, those with the given identifiers being passed
over. -/
def pick (k : Ranking) (records : List Record) (used : List String) (t : Target) : List Record :=
  ((candidates k records t.code).filter fun r => !used.contains r.id).take t.quota

/-- The trace of a picked record. -/
def trace (code : String) (r : Record) (place : Nat) : Trace where
  code
  recordId := r.id
  rank := place + 1
  category := r.category
  otherCodes := r.distinctCodes.length - 1

/-- The traces for targets, where `used` are the identifiers of the records that were
picked before. -/
def curateAfter (k : Ranking) (records : List Record) (used : List String) :
    List Target → List Trace
  | [] => []
  | t :: ts =>
    let picked := pick k records used t
    picked.zipIdx.map (fun (r, i) => trace t.code r i)
      ++ curateAfter k records (picked.map Record.id ++ used) ts

/-- The traces for all targets, target by target. -/
def curate (c : Curator) (records : List Record) : List Trace :=
  curateAfter c.ranking records [] c.targets

end Curator

end CorpusAudit
