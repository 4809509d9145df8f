import CorpusAudit.Decimal.Rounding
import CorpusAudit.Decimal.Shortest
import CorpusAudit.Gate.Level
import CorpusAudit.Risk
import CorpusAudit.Storage.Tree

/-!
# Faults

Whatever makes a run give up is a `Fault`: an input that cannot be used, a table that is
no corpus, a question without an answer, or a setting that makes no sense.  A fault says
what the matter is; `Fault.message` is what is told about it, and `Fault.chain` the same
followed by its causes, one inside the other.
-/

namespace CorpusAudit

/-- Why the counts of a report are refused. -/
inductive ReportFault where
  /-- The report is of a version that is not known yet. -/
  | newerVersion (version : Nat)
  /-- The records that passed and failed are not all records. -/
  | outcomes (passed failed total : Nat)
  /-- The records of the categories are not all records. -/
  | categories (sum total : Nat)
deriving DecidableEq, Repr

/-- The version of reports that are written, and the newest that are read. -/
def reportVersion : Nat := 1

/-- What is said of a report that is refused. -/
def ReportFault.message : ReportFault → String
  | .newerVersion v =>
    s!"schema version {v} is newer than supported version {reportVersion}"
  | .outcomes passed failed total =>
    s!"passed ({passed}) + failed ({failed}) != total ({total})"
  | .categories sum total => s!"category counts sum to {sum} but total is {total}"

/-- Why an input cannot be used. -/
inductive Cause where
  | file (fault : FileFault)
  /-- The text is no JSON document, or not one of the expected form. -/
  | json
  /-- The text is no TOML document, or not one of the expected form. -/
  | toml
  | report (fault : ReportFault)
  | noReviews
deriving DecidableEq, Repr

/-- What is said of an input that cannot be used. -/
def Cause.message : Cause → String
  | .file fault => "I/O error: " ++ fault.message
  | .json => "JSON error: not a document of the expected form"
  | .toml => "TOML error: not a document of the expected form"
  | .report fault => fault.message
  | .noReviews => "review directory does not exist"

/-- Why a table is no corpus. -/
inductive SchemaFault where
  | missingColumn (column : String)
  /-- Too many rows were skipped; the ratio and its limit are percentages. -/
  | tooManySkipped (skipped total : Nat) (ratio limit : Float)
  | notTabular
deriving DecidableEq, Repr

/-- What is said of a table that is no corpus. -/
def SchemaFault.message : SchemaFault → String
  | .missingColumn column => s!"required column '{column}' is absent from every row"
  | .tooManySkipped skipped total ratio limit =>
    s!"skipped {skipped} of {total} rows (" ++ Decimal.fixed 1 ratio ++ "% > "
      ++ Decimal.fixed 1 limit ++ "% allowed)"
  | .notTabular => "expected a table of objects: top-level value is not an array"

/-- Why a question has no answer. -/
inductive ComputationFault where
  /-- None of the records has an outcome. -/
  | noOutcomes (records : Nat)
  /-- The report is not fit to be a baseline. -/
  | refused (fault : ReportFault)
deriving DecidableEq, Repr

/-- What is said of a question without an answer. -/
def ComputationFault.message : ComputationFault → String
  | .noOutcomes records => s!"no determinable outcomes among {records} records"
  | .refused fault => "refusing to promote report: " ++ fault.message

/-- Why a setting makes no sense. -/
inductive ConfigurationFault where
  | emptyRuleSet
  /-- The last rule does not match everything. -/
  | noCatchAll (rule : String)
  | catchAllTier (rule : String) (tier : Tier)
  | duplicateRule (rule : String)
  /-- A rule before the last matches everything. -/
  | earlyCatchAll (rule : String)
  /-- A rule is more severe than the one before it. -/
  | tierOrder (rule : String) (tier : Tier) (previous : String) (previousTier : Tier)
  /-- The quota of a target is no number. -/
  | quota (target : String)
  | errorCode (code : String)
  | noTargets
  | repeatedTarget (code : String)
  | skipRatio (ratio : Float)
  /-- The fraction of the configuration file. -/
  | configuredFraction (fraction : Float)
  | fractionRange (fraction : Float)
  | fractionResolution (fraction : Float)
  | levels (baseline current : Level)
deriving DecidableEq, Repr

/-- What is said of a setting that makes no sense. -/
def ConfigurationFault.message : ConfigurationFault → String
  | .emptyRuleSet => "rule set is empty"
  | .noCatchAll rule => s!"last rule '{rule}' must be a catch-all ('always')"
  | .catchAllTier rule tier => s!"catch-all rule '{rule}' must be LOW, got " ++ tier.name
  | .duplicateRule rule => s!"duplicate rule name '{rule}'"
  | .earlyCatchAll rule => s!"catch-all rule '{rule}' makes later rules unreachable"
  | .tierOrder rule tier previous previousTier =>
    s!"rule '{rule}' (" ++ tier.name ++ s!") follows '{previous}' (" ++ previousTier.name
      ++ "): tiers must run HIGH → MEDIUM → LOW"
  | .quota target => s!"invalid quota in '{target}'"
  | .errorCode code => s!"'{code}' is not a compiler error code (expected e.g. E0308)"
  | .noTargets => "no error codes given"
  | .repeatedTarget code => s!"error code {code} listed twice"
  | .skipRatio ratio =>
    "loader.max_skip_ratio must be in [0, 1], got " ++ Decimal.plain ratio
  | .configuredFraction fraction =>
    "sampling.fraction must be in (0, 1], got " ++ Decimal.plain fraction
  | .fractionRange fraction => "sampling fraction must be in (0, 1], got " ++ Decimal.plain fraction
  | .fractionResolution fraction =>
    "sampling fraction " ++ Decimal.plain fraction ++ " is below the 1e-6 resolution"
  | .levels baseline current =>
    "cannot compare a " ++ baseline.name ++ "-level baseline with a " ++ current.name
      ++ "-level snapshot"

/-- Why a run gives up. -/
inductive Fault where
  /-- The input at a path cannot be used. -/
  | input (path : Path) (cause : Cause)
  | schema (fault : SchemaFault)
  | computation (fault : ComputationFault)
  | configuration (fault : ConfigurationFault)
deriving DecidableEq, Repr

/-- What is said when a run gives up. -/
def Fault.message : Fault → String
  | .input path cause => "Input error at " ++ path.text ++ ": " ++ cause.message
  | .schema fault => "Schema error: " ++ fault.message
  | .computation fault => "Computation error: " ++ fault.message
  | .configuration fault => "Configuration error: " ++ fault.message

/-- The messages of a fault and of the causes inside it. -/
def Fault.chain (f : Fault) : List String :=
  match f with
  | .input _ (.file fault) => [f.message, (Cause.file fault).message, fault.message]
  | .input _ cause => [f.message, cause.message]
  | .schema fault => [f.message, fault.message]
  | .computation _ => [f.message]
  | .configuration _ => [f.message]

end CorpusAudit
