import CorpusAudit.Hash.Blake3
import CorpusAudit.Report.Document

/-!
# The baseline

The baseline is the report that later reports are compared with.  It is kept in one file
and changes only when a report is promoted, which replaces the file as a whole.  A
`Baseline` is what the file holds, with the hash of its bytes.
-/

namespace CorpusAudit

/-- A report that was read as the baseline. -/
structure Baseline where
  report : Report
  /-- The hash of the bytes of the file, in hexadecimal digits. -/
  digest : String
deriving DecidableEq, Repr

namespace Baseline

/-- The baseline that the bytes of a file hold; the counts of its report agree. -/
def ofBytes (p : Path) (bytes : Bytes) : Except Fault Baseline :=
  match (Json.ofBytes? bytes).bind Report.decode with
  | none => .error (.input p .json)
  | some r => match r.faultOf? with
    | some e => .error (.input p (.report e))
    | none => .ok ⟨r, Hash.Blake3.hexDigest bytes⟩

/-- The first digits of the hash. -/
def shortDigest (b : Baseline) : String :=
  String.ofList (b.digest.toList.take 12)

variable {m : Type → Type} [Monad m] [Storage m]

/-- Read the baseline. -/
def load (p : Path) : ExceptT Fault m Baseline := do
  let bytes ← Storage.located p (Storage.read p)
  ExceptT.mk (pure (ofBytes p bytes))

/-- Read the baseline, if there is one. -/
def load? (p : Path) : ExceptT Fault m (Option Baseline) := do
  if ← (Storage.isPresent p : m Bool) then return some (← load p)
  else return none

/-- Make a report the baseline, provided that its counts agree. -/
def promote (p : Path) (r : Report) : ExceptT Fault m Baseline := do
  if let some e := r.faultOf? then throw (.computation (.refused e))
  let bytes := Text.encode (Json.render r.toValue)
  Storage.writeAtomic p ⟨bytes, none⟩
  ExceptT.mk (pure (ofBytes p bytes))

end Baseline

end CorpusAudit
