import CorpusAudit.Storage.Tree

/-!
# Access to files

`Storage m` is what a program in `m` may do with files.  A tree in a state monad is one
storage, the file system of the machine another.  An operation that fails has changed
nothing.
-/

namespace CorpusAudit

/-- The operations on files that a program may use. -/
class Storage (m : Type → Type) where
  /-- The bytes of a file. -/
  read : Path → ExceptT FileFault m Bytes
  /-- Whether a path leads to something. -/
  isPresent : Path → m Bool
  isDirectory : Path → m Bool
  /-- The names of what is directly inside a directory. -/
  list : Path → ExceptT FileFault m (List String)
  /-- Make a directory where nothing is. -/
  createDirectory : Path → ExceptT FileFault m Unit
  /-- Make a file, or replace the bytes of a file. -/
  write : Path → Bytes → ExceptT FileFault m Unit
  /-- Remove a file. -/
  remove : Path → ExceptT FileFault m Unit
  /-- Move a file, over a file that may be at its new place. -/
  move : Path → Path → ExceptT FileFault m Unit

namespace Tree

/-- Look something up in the tree that is the state. -/
def inspect {α : Type} (f : Tree → α) : StateM Tree α := fun t =>
  (f t, t)

/-- Change the tree that is the state, unless the change fails. -/
def attempt (f : Tree → Except FileFault Tree) : ExceptT FileFault (StateM Tree) Unit :=
  ExceptT.mk fun t => match f t with
    | .ok t' => (.ok (), t')
    | .error e => (.error e, t)

/-- A tree as a storage. -/
instance : Storage (StateM Tree) where
  read p := ExceptT.mk (inspect (·.read p))
  isPresent p := inspect (·.isPresent p)
  isDirectory p := inspect (·.isDirectory p)
  list p := ExceptT.mk (inspect (·.list p))
  createDirectory p := attempt (·.createDirectory p)
  write p content := attempt (·.write p content)
  remove p := attempt (·.remove p)
  move source target := attempt (·.move source target)

end Tree

namespace Storage

variable {m : Type → Type} [Monad m] [Storage m]

/-- Make the directories of a list, each inside the next, where they are missing. -/
def createAll : List Path → ExceptT FileFault m Unit
  | [] => pure ()
  | p :: above => do
    let unlessPresent (e : FileFault) : ExceptT FileFault m Unit := do
      if !(← (Storage.isDirectory p : m Bool)) then throw e
    tryCatch (Storage.createDirectory p) fun e => do
      if e = .notFound then
        createAll above
        tryCatch (Storage.createDirectory p) unlessPresent
      else unlessPresent e

/-- Make a directory and those it lies in, where they are missing. -/
def createDirectories (p : Path) : ExceptT FileFault m Unit :=
  createAll p.ancestors

end Storage

end CorpusAudit
