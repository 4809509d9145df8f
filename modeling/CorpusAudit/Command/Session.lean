import CorpusAudit.Fault
import CorpusAudit.Text.Layout

/-!
# Sessions

A `Session` is a program that prints, and that may fail.  What it prints is kept in a
`Transcript`, also when it fails afterwards.  A `Failure` is a fault together with what
the program was doing when it arose.
-/

namespace CorpusAudit

/-- Where something is printed. -/
inductive Channel where
  /-- The results. -/
  | results
  /-- Warnings and refusals. -/
  | warnings
deriving DecidableEq, Repr

/-- What was printed, in the order in which it was printed. -/
structure Transcript where
  entries : List (Channel × String)
deriving DecidableEq, Repr, Inhabited

namespace Transcript

/-- Nothing was printed. -/
def empty : Transcript :=
  ⟨[]⟩

/-- Print a text. -/
def print (t : Transcript) (c : Channel) (s : String) : Transcript :=
  ⟨t.entries ++ [(c, s)]⟩

/-- What was printed on a channel. -/
def on (t : Transcript) (c : Channel) : String :=
  String.join ((t.entries.filter (·.1 = c)).map (·.2))

end Transcript

/-- A fault, and what was being done when it arose. -/
structure Failure where
  /-- What was being done, as a sentence; nothing if the fault says it all. -/
  activity : Option String
  fault : Fault
deriving DecidableEq, Repr

/-- What is said of a failure: what was being done, and the fault with its causes. -/
def Failure.message (f : Failure) : String :=
  ": ".intercalate (f.activity.toList ++ f.fault.chain)

/-- A program that prints, and that may fail. -/
abbrev Session (m : Type → Type) := ExceptT Failure (StateT Transcript m)

namespace Session

variable {m : Type → Type} [Monad m] {α : Type}

/-- Do something that may fail; `activity` says what it is. -/
def during (activity : Option String) (x : ExceptT Fault m α) : Session m α :=
  ExceptT.mk do
    let r ← StateT.lift x.run
    return r.mapError fun e => ⟨activity, e⟩

/-- Do something whose faults say it all. -/
def lift (x : ExceptT Fault m α) : Session m α :=
  during none x

/-- The result of a computation whose faults say it all. -/
def ofExcept {ε : Type} (fault : ε → Fault) (x : Except ε α) : Session m α :=
  ExceptT.mk (pure (x.mapError fun e => ⟨none, fault e⟩))

/-- Print a text on a channel. -/
def emit (c : Channel) (s : String) : Session m Unit :=
  modify fun t => t.print c s

/-- Print a text among the results. -/
def print (s : String) : Session m Unit :=
  emit .results s

/-- Print lines among the results. -/
def printLines (ls : List String) : Session m Unit :=
  print (Text.unlines ls)

/-- Print a line of warning. -/
def warn (s : String) : Session m Unit :=
  emit .warnings (s ++ "\n")

/-- What a session comes to from an empty transcript, and what it has printed. -/
def run (x : Session m α) : m (Except Failure α × Transcript) :=
  StateT.run (ExceptT.run x) .empty

end Session

end CorpusAudit
