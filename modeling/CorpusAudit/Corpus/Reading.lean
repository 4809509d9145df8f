import CorpusAudit.Corpus.Basic
import CorpusAudit.Storage.Artifact
import CorpusAudit.Text.Blank

/-!
# Reading corpora

A table is written as one JSON array of rows or as JSON Lines, one row to a line.  The
layout is told by the extension of the file or else by the first byte that is not
blank.  In JSON Lines, blank lines are no rows, and a line that is no document is a row
that is rejected.
-/

namespace CorpusAudit

/-- How a table is written. -/
inductive Layout where
  /-- One JSON array of rows. -/
  | array
  /-- One row to a line. -/
  | lines
deriving DecidableEq, Repr

namespace Layout

/-- The layout told by the extension of a path. -/
def ofPath? (p : Path) : Option Layout :=
  match p.extension? with
  | some "json" => some .array
  | some "jsonl" => some .lines
  | some "ndjson" => some .lines
  | _ => none

/-- How many bytes of a file are taken at once. -/
def pieceSize : Nat := 8192

/-- Bytes cut into pieces of at most the given size, which is not zero. -/
def pieces (size : Nat) (bytes : Bytes) : List Bytes :=
  if _h : size = 0 ∨ bytes = [] then []
  else bytes.take size :: pieces size (bytes.drop size)
termination_by bytes.length
decreasing_by
  have := List.length_pos_iff.mpr (not_or.mp _h).2
  have := (not_or.mp _h).1
  simp only [List.length_drop]
  omega

/-- The layout told by the first byte that is not blank, and the bytes that are left to
read: pieces that are blank altogether are let go. -/
def sniff : List Bytes → Layout × Bytes
  | [] => (.lines, [])
  | piece :: more =>
    match piece.find? fun b => !Text.isBlankByte b with
    | some b => (if b = 0x5B then .array else .lines, piece ++ more.flatten)
    | none => sniff more

end Layout

namespace Corpus

/-- The corpus that a JSON array holds; `source` is where it is read from. -/
def ofArray (source : Path) (limit : Float) (bytes : Bytes) : Except Fault Corpus :=
  match (Json.ofBytes? bytes).bind Decode.any with
  | none => .error (.input source .json)
  | some (.list rows) => (ofRows limit (rows.map some)).mapError .schema
  | some _ => .error (.schema .notTabular)

/-- The rows of JSON Lines. -/
def rowsOfLines (bytes : Bytes) : List (Option Value) :=
  ((bytes.splitOn 0x0A).filter fun l => !l.all Text.isBlankByte).map fun l =>
    (Json.ofBytes? l).bind Decode.any

/-- The corpus that JSON Lines hold. -/
def ofLines (limit : Float) (bytes : Bytes) : Except Fault Corpus :=
  (ofRows limit (rowsOfLines bytes)).mapError .schema

/-- The corpus that is written in the given layout. -/
def ofBytes (source : Path) (limit : Float) : Layout → Bytes → Except Fault Corpus
  | .array, bytes => ofArray source limit bytes
  | .lines, bytes => ofLines limit bytes

variable {m : Type → Type} [Monad m] [Storage m]

/-- Read a corpus from a file. -/
def load (p : Path) (limit : Float) : ExceptT Fault m Corpus := do
  match Layout.ofPath? p with
  | some .array =>
    let bytes ← Storage.readDocument p
    ExceptT.mk (pure (ofArray p limit bytes))
  | some .lines =>
    let bytes ← Storage.located p (Storage.read p)
    ExceptT.mk (pure (ofLines limit bytes))
  | none =>
    let bytes ← Storage.located p (Storage.read p)
    let (layout, rest) := Layout.sniff (Layout.pieces Layout.pieceSize bytes)
    ExceptT.mk (pure (ofBytes p limit layout rest))

end Corpus

end CorpusAudit
