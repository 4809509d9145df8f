import CorpusAudit.Fault
import CorpusAudit.Golden.ErrorCode
import CorpusAudit.Text.Blank

/-!
# Targets

A `Target` asks for a number of records that have an error code.  Targets are given as a
list such as `E0308=10,E0433`; a code without a number has a default quota, and no code
may be given twice.
-/

namespace CorpusAudit

/-- An error code and how many records with it are wanted. -/
structure Target where
  code : String
  quota : Nat
deriving DecidableEq, Repr

namespace Target

/-- How many records are wanted unless a number is given. -/
def defaultQuota : Nat := 10

/-- The targets unless others are given. -/
def defaults (quota : Nat) : List Target :=
  ["E0308", "E0433", "E0599", "E0425", "E0277"].map fun c => ⟨c, quota⟩

/-- A target as a value. -/
def toValue (t : Target) : Value :=
  .record [("code", .text t.code), ("quota", .nat t.quota)]

/-- Read a target as it is written by `toValue`. -/
def decode (d : Decode.Dialect) : Decoder Target := fun v => do
  let fs ← Decode.fields d ["code", "quota"] true v
  let code ← fs.required "code" Decode.text
  let quota ← fs.required "quota" Decode.count
  some ⟨code, quota⟩

/-- The first code that is listed twice. -/
def repeated? (seen : List String) : List Target → Option String
  | [] => none
  | t :: ts => if seen.contains t.code then some t.code else repeated? (t.code :: seen) ts

/-- Why a list of targets is refused, if it is. -/
def faultOf? (ts : List Target) : Option ConfigurationFault :=
  if ts.isEmpty then some .noTargets else (repeated? [] ts).map .repeatedTarget

/-! ### Reading lists of targets -/

/-- The target that a part of a list names, blanks at both ends left out. -/
def parsePart (quota : Nat) (part : List Char) : Except ConfigurationFault Target := do
  let code := part.takeWhile (· ≠ '=')
  let (code, quota) ← match part.dropWhile (· ≠ '=') with
    | [] => .ok (code, quota)
    | _ :: number => match Decimal.count? (Text.trimChars number) with
      | some n => .ok (Text.trimChars code, n)
      | none => .error (.quota (String.ofList part))
  if isErrorCode code then .ok ⟨String.ofList code, quota⟩
  else .error (.errorCode (String.ofList code))

/-- The parts of a list between the commas, without blanks at both ends; blank parts are
left out. -/
def parts (s : List Char) : List (List Char) :=
  ((s.splitOn ',').map Text.trimChars).filter fun p => !p.isEmpty

/-- The targets that a list names. -/
def parseList (s : String) (quota : Nat) : Except ConfigurationFault (List Target) := do
  let ts ← (parts s.toList).mapM (parsePart quota)
  match faultOf? ts with
  | some e => .error e
  | none => .ok ts

end Target

end CorpusAudit
