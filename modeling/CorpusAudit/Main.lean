import CorpusAudit.Command.Run
import Std.Time.DateTime.Timestamp

/-!
# The program

The machine as a storage, and the program that runs the command of its command line on
it.
-/

namespace CorpusAudit

/-- The failure that an error of the machine stands for. -/
def FileFault.ofError : IO.Error → FileFault
  | .noFileOrDirectory .. => .notFound
  | .alreadyExists .. => .exists
  | .inappropriateType _ 20 _ => .notDirectory
  | .inappropriateType _ 21 _ => .isDirectory
  | .resourceBusy .. => .busy
  | e => .other (toString e)

namespace Machine

/-- An operation of the machine. -/
def operate {α : Type} (x : IO α) : ExceptT FileFault BaseIO α :=
  ExceptT.mk do
    let r ← x.toBaseIO
    return r.mapError FileFault.ofError

/-- The files of the machine. -/
instance : Storage BaseIO where
  read p := operate do
    let bytes ← IO.FS.readBinFile p.text
    return bytes.toList
  isPresent p := do
    let place ← (IO.FS.realPath p.text).toBaseIO
    return place.toOption.isSome
  isDirectory p := do
    match ← (IO.FS.realPath p.text).toBaseIO with
    | .ok place => place.isDir
    | .error _ => return false
  list p := operate do
    let place ← IO.FS.realPath p.text
    let entries ← place.readDir
    return entries.toList.map (·.fileName)
  createDirectory p := operate (IO.FS.createDir p.text)
  write p content := operate (IO.FS.writeBinFile p.text ⟨content.toArray⟩)
  remove p := operate (IO.FS.removeFile p.text)
  move source target := operate (IO.FS.rename source.text target.text)

/-- The time of the machine. -/
def now : IO Time.Instant := do
  let t ← Std.Time.Timestamp.now
  let nanos := t.toNanosecondsSinceUnixEpoch.val.toNat
  return .ofUnix (nanos / Time.nanosPerSecond) (nanos % Time.nanosPerSecond)

/-- Print a transcript. -/
def replay (t : Transcript) : IO Unit :=
  t.entries.forM fun
    | (.results, s) => IO.print s
    | (.warnings, s) => IO.eprint s

/-- Run an invocation; the result is the number with which the program ends. -/
def run (i : Invocation) : IO UInt32 := do
  let t ← now
  let (r, transcript) ← Session.run (m := BaseIO) (i.run t)
  replay transcript
  if let .error f := r then IO.eprintln ("error: " ++ f.message)
  return UInt32.ofNat (exitCode r)

/-- Run the command of a command line. -/
def runWords (words : List String) : IO UInt32 := do
  match Invocation.parse words with
  | .ok i => run i
  | .error .help =>
    IO.print Invocation.usage
    return 0
  | .error .version =>
    IO.println Invocation.version
    return 0
  | .error .usage =>
    IO.eprint Invocation.usage
    return 2

end Machine

end CorpusAudit

/-- Run the command of the command line. -/
def main (words : List String) : IO UInt32 :=
  CorpusAudit.Machine.runWords words
