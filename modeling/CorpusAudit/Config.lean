import CorpusAudit.Gate.Snapshot
import CorpusAudit.Golden.Curation
import CorpusAudit.Rule.Set
import CorpusAudit.Sample.Allocation
import CorpusAudit.Storage.Artifact
import CorpusAudit.Suspicion.Spectrum
import CorpusAudit.Toml.Reader

/-!
# Configuration

A `Config` holds the settings of a run.  They are kept in a file with a section for each
kind of setting; sections and settings that the file does not have take their defaults.
A file whose settings are out of range (`Config.faultOf?`) is refused.
-/

namespace CorpusAudit

namespace Config

/-- The settings of reports. -/
structure Reports where
  /-- The worst grade with which a report passes, if there is a limit. -/
  leastGrade : Option Grade := none
  /-- How many suspicious features a report lists at most. -/
  topSuspicious : Nat := 5
  formula : Formula := .tarantula
deriving DecidableEq, Repr

/-- The settings of comparisons. -/
structure Gate where
  policy : PassPolicy := .any
  /-- The file that holds the baseline. -/
  baseline : Path := ⟨"baseline.json"⟩
deriving DecidableEq, Repr

/-- The settings of samples. -/
structure Sampling where
  fraction : Float := 0.05
  seed : Nat := 42
  allocation : Allocation := .default
  /-- The directory in which samples wait for review. -/
  folder : Path := ⟨"hitl_reviews"⟩
deriving DecidableEq, Repr

/-- The settings of curation. -/
structure Golden where
  targets : List Target := Target.defaults Target.defaultQuota
  ranking : Ranking := .isolatedFirst
deriving DecidableEq, Repr

end Config

/-- The settings of a run. -/
structure Config where
  /-- The part of the rows of a corpus that may be skipped. -/
  skipLimit : Float := 0.2
  rules : RuleSet := .default
  reports : Config.Reports := {}
  gate : Config.Gate := {}
  sampling : Config.Sampling := {}
  golden : Config.Golden := {}
deriving DecidableEq, Repr

namespace Config

/-- The settings unless others are given. -/
def default : Config := {}

instance : Inhabited Config := ⟨default⟩

/-- The file that is read unless another one is named. -/
def defaultPath : Path := ⟨"criba.toml"⟩

/-- Why settings are refused, if they are. -/
def faultOf? (c : Config) : Option ConfigurationFault :=
  if !(0 ≤ c.skipLimit && c.skipLimit ≤ 1) then some (.skipRatio c.skipLimit)
  else if !(c.sampling.fraction > 0 && c.sampling.fraction ≤ 1) then
    some (.configuredFraction c.sampling.fraction)
  else Target.faultOf? c.golden.targets

/-! ### As values -/

/-- A path is given by its text. -/
def decodePath : Decoder Path := fun v =>
  (Decode.text v).map Path.mk

/-- Read the part of the rows that may be skipped. -/
def decodeLoader : Decoder Float := fun v => do
  let fs ← Decode.fields .toml ["max_skip_ratio"] true v
  fs.orElse "max_skip_ratio" Decode.float default.skipLimit

/-- Read the rules for labels. -/
def decodeLabeling : Decoder RuleSet := fun v => do
  let fs ← Decode.fields .toml ["rules"] true v
  fs.orElse "rules" (RuleSet.decode .toml) default.rules

namespace Reports

/-- Read the settings of reports. -/
def decode : Decoder Reports := fun v => do
  let fs ← Decode.fields .toml ["min_grade", "top_suspicious", "formula"] true v
  let d : Reports := {}
  let leastGrade ← fs.orElse "min_grade" (Decode.option (Grade.decode .toml)) d.leastGrade
  let topSuspicious ← fs.orElse "top_suspicious" Decode.count d.topSuspicious
  let formula ← fs.orElse "formula" (Formula.decode .toml) d.formula
  some { leastGrade, topSuspicious, formula }

/-- The settings of reports as a value. -/
def toValue (s : Reports) : Value :=
  .record [
    ("min_grade", .ofOption Grade.toValue s.leastGrade),
    ("top_suspicious", .nat s.topSuspicious),
    ("formula", .text s.formula.name)]

end Reports

namespace Gate

/-- Read the settings of comparisons. -/
def decode : Decoder Gate := fun v => do
  let fs ← Decode.fields .toml ["policy", "baseline"] true v
  let d : Gate := {}
  let policy ← fs.orElse "policy" (PassPolicy.decode .toml) d.policy
  let baseline ← fs.orElse "baseline" decodePath d.baseline
  some { policy, baseline }

/-- The settings of comparisons as a value. -/
def toValue (s : Gate) : Value :=
  .record [("policy", .text s.policy.name), ("baseline", .text s.baseline.text)]

end Gate

namespace Sampling

/-- Read the settings of samples, which are given by name only. -/
def decode : Decoder Sampling := fun v => do
  let fs ← Decode.fields .toml ["fraction", "seed", "rounding", "at_least_one", "reviews_dir"] true v
  let d : Sampling := {}
  if fs.positional then none
  else
    let fraction ← fs.orElse "fraction" Decode.float d.fraction
    let seed ← fs.orElse "seed" Decode.count d.seed
    let rounding ← fs.orElse "rounding" (Rounding.decode .collected) d.allocation.rounding
    let atLeastOne ← fs.orElse "at_least_one" Decode.bool d.allocation.atLeastOne
    let folder ← fs.orElse "reviews_dir" decodePath d.folder
    some { fraction, seed, allocation := ⟨rounding, atLeastOne⟩, folder }

/-- The settings of samples as a value. -/
def toValue (s : Sampling) : Value :=
  .record [
    ("fraction", .float s.fraction),
    ("seed", .nat s.seed),
    ("rounding", .text s.allocation.rounding.name),
    ("at_least_one", .bool s.allocation.atLeastOne),
    ("reviews_dir", .text s.folder.text)]

end Sampling

namespace Golden

/-- Read the settings of curation. -/
def decode : Decoder Golden := fun v => do
  let fs ← Decode.fields .toml ["targets", "ranking"] true v
  let d : Golden := {}
  let targets ← fs.orElse "targets" (Decode.list (Target.decode .toml)) d.targets
  let ranking ← fs.orElse "ranking" (Ranking.decode .toml) d.ranking
  some { targets, ranking }

/-- The settings of curation as a value. -/
def toValue (s : Golden) : Value :=
  .record [
    ("targets", .list (s.targets.map Target.toValue)),
    ("ranking", .text s.ranking.name)]

end Golden

/-- Read settings, section by section. -/
def decode : Decoder Config := fun v => do
  let fs ← Decode.fields .toml ["loader", "labeling", "report", "gate", "sampling", "golden"] true v
  let skipLimit ← fs.orElse "loader" decodeLoader default.skipLimit
  let rules ← fs.orElse "labeling" decodeLabeling default.rules
  let reports ← fs.orElse "report" Reports.decode {}
  let gate ← fs.orElse "gate" Gate.decode {}
  let sampling ← fs.orElse "sampling" Sampling.decode {}
  let golden ← fs.orElse "golden" Golden.decode {}
  some { skipLimit, rules, reports, gate, sampling, golden }

/-- Settings as a value. -/
def toValue (c : Config) : Value :=
  .record [
    ("loader", .record [("max_skip_ratio", .float c.skipLimit)]),
    ("labeling", .record [("rules", c.rules.toValue)]),
    ("report", c.reports.toValue),
    ("gate", c.gate.toValue),
    ("sampling", c.sampling.toValue),
    ("golden", c.golden.toValue)]

/-! ### Files -/

/-- The settings that the bytes of a file hold. -/
def ofBytes (p : Path) (bytes : Bytes) : Except Fault Config :=
  match Text.decode? bytes with
  | none => .error (.input p (.file .invalidText))
  | some s => match (Toml.parse? s).bind decode with
    | none => .error (.input p .toml)
    | some c => match c.faultOf? with
      | some e => .error (.configuration e)
      | none => .ok c

variable {m : Type → Type} [Monad m] [Storage m]

/-- Read the settings of a file. -/
def load (p : Path) : ExceptT Fault m Config := do
  let bytes ← Storage.located p (Storage.read p)
  ExceptT.mk (pure (ofBytes p bytes))

/-- Read the settings of a file, or take the defaults if there is none. -/
def loadOrDefault (p : Path) : ExceptT Fault m Config := do
  if ← (Storage.isPresent p : m Bool) then load p
  else return default

end Config

end CorpusAudit
