import CorpusAudit.Fault
import CorpusAudit.Json.Reader
import CorpusAudit.Json.Writer
import CorpusAudit.Storage.Basic

/-!
# Artifacts

An artifact is written to a temporary file beside its place and then moved there, so that
a write that fails leaves what was there.  `Filling` is what a write puts into the
temporary file, and whether it fails half-way.
-/

namespace CorpusAudit

/-- The temporary path beside the place of an artifact. -/
def Path.temporary (p : Path) : Path :=
  p.withFileName (p.fileName?.getD "" ++ ".tmp")

/-- What is written into a file, and the failure with which writing ends, if it fails. -/
structure Filling where
  content : Bytes
  failure? : Option FileFault := none
deriving DecidableEq, Repr

namespace Storage

variable {m : Type → Type} [Monad m] [Storage m]

/-- The faults of operations on files are faults of the input at a path. -/
def located {α : Type} (p : Path) (x : ExceptT FileFault m α) : ExceptT Fault m α :=
  x.adapt fun e => .input p (.file e)

/-- Fill the temporary file of an artifact and move it to its place. -/
def commit (p : Path) (filling : Filling) : ExceptT FileFault m Unit := do
  write p.temporary filling.content
  if let some e := filling.failure? then throw e
  move p.temporary p

/-- Write an artifact, with the directories it lies in; a temporary file does not outlive
a failure. -/
def writeAtomic (p : Path) (filling : Filling) : ExceptT Fault m Unit := do
  if let some folder := p.parent? then
    if folder.text ≠ "" then located folder (createDirectories folder)
  located p (tryCatch (commit p filling) fun e => do
    tryCatch (remove p.temporary) fun _ => pure ()
    throw e)

/-- Write a document as an artifact. -/
def writeJson (p : Path) (v : Value) : ExceptT Fault m Unit :=
  writeAtomic p ⟨Text.encode (Json.render v), none⟩

/-- The bytes of a file that holds a document: a directory can be opened, but holds no
document. -/
def readDocument (p : Path) : ExceptT Fault m Bytes :=
  (read p).adapt fun e => .input p (if e = .isDirectory then .json else .file e)

/-- Read a document, as the value that `d` reads from it. -/
def readJson {α : Type} (d : Decoder α) (p : Path) : ExceptT Fault m α := do
  let bytes ← readDocument p
  match (Json.ofBytes? bytes).bind d with
  | some a => pure a
  | none => throw (.input p .json)

end Storage

end CorpusAudit
