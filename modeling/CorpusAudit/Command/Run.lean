import CorpusAudit.Command.Basic
import CorpusAudit.Command.Messages
import CorpusAudit.Command.Session
import CorpusAudit.Insight.Writer
import CorpusAudit.Report.Printing
import CorpusAudit.Review.Summary
import CorpusAudit.Suspicion.Printing

/-!
# Running commands

A command reads what it needs, computes, writes at most one file, and prints.  It ends
with an `Ending`: all is well, or a gate is closed because a grade is too low or
something has ceased to pass.  A command that cannot do its work fails instead.
-/

namespace CorpusAudit

/-- How a command ends that has done its work. -/
inductive Ending where
  | success
  | gateFailed
deriving DecidableEq, Repr

/-- The number with which a run ends. -/
def exitCode : Except Failure Ending → Nat
  | .ok .success => 0
  | .ok .gateFailed => 1
  | .error _ => 2

namespace Command

open Session

variable {m : Type → Type} [Monad m] [Storage m]

/-! ### Input and output -/

/-- Read the settings. -/
def loadConfig (p : Path) : Session m Config :=
  during (some (Messages.readingConfig p)) (Config.loadOrDefault p)

/-- Read a corpus. -/
def loadCorpus (c : Config) (p : Path) : Session m Corpus :=
  during (some (Messages.readingCorpus p)) (Corpus.load p c.skipLimit)

/-- Read a corpus and label it, with a warning if rows were skipped. -/
def loadLabeled (c : Config) (p : Path) : Session m LabeledCorpus := do
  let corpus ← loadCorpus c p
  if 0 < corpus.rows.skipped then warn (Messages.skipped corpus.rows)
  return ⟨corpus, c.rules⟩

/-- Write a result as a document. -/
def save (p : Path) (v : Value) : Session m Unit :=
  during (some (Messages.writing p)) (Storage.writeJson p v)

/-- Write a result as a document, if there is a place for it. -/
def saveIfAsked (p : Option Path) (v : Value) : Session m Unit := do
  if let some p := p then save p v

/-! ### Labels, rankings and insights -/

/-- Label the records of a corpus and write them. -/
def runLabel (c : Config) (corpus output : Path) : Session m Ending := do
  let labeled ← loadLabeled c corpus
  during (some (Messages.writing output)) (labeled.writeLines output)
  printLines (Messages.labeled labeled.statistics ++ [Messages.written output])
  return .success

/-- A ranking in a format. -/
def renderRanking (formula : Formula) (ranking : List Suspicion) : Format → String
  | .text => Suspicion.rankingText formula ranking
  | .json => Json.prettyText (Suspicion.rankingValue ranking) ++ "\n"
  | .markdown => Suspicion.rankingMarkdown formula ranking

/-- Rank the features of a corpus. -/
def runLocalize (c : Config) (corpus : Path) (formula : Option Formula) (format : Format) :
    Session m Ending := do
  let labeled ← loadLabeled c corpus
  let formula := formula.getD c.reports.formula
  let ranking ← ofExcept .computation (rankFeatures formula labeled.records)
  print (renderRanking formula ranking format)
  return .success

/-- Find the categories without successes. -/
def runInsights (c : Config) (now : Time.Instant) (corpus : Path) (output : Option Path) :
    Session m Ending := do
  let labeled ← loadLabeled c corpus
  let r := InsightReport.analyze c.reports.formula labeled.records now
  saveIfAsked output r.toValue
  print r.text
  return .success

/-! ### Reports and comparisons -/

/-- A report in a format. -/
def renderReport (r : Report) : Format → String
  | .text => r.text
  | .json => Json.prettyText r.toValue
  | .markdown => r.markdown

/-- Whether a report is good enough. -/
def judge (r : Report) : Option Grade → Session m Ending
  | none => return .success
  | some least => do
    if r.meets least then return .success
    warn (Messages.belowGrade r.grade least)
    return .gateFailed

/-- Grade a corpus. -/
def runReport (c : Config) (now : Time.Instant) (corpus : Path) (output : Option Path)
    (format : Format) (least : Option Grade) : Session m Ending := do
  let labeled ← loadLabeled c corpus
  let r := Report.aggregate c.reports.formula c.reports.topSuspicious labeled now
  saveIfAsked output r.toValue
  printLines [renderReport r format]
  judge r (least.or c.reports.leastGrade)

/-- Compare two snapshots. -/
def compare (before after : Snapshot) : Session m Ending := do
  let c ← ofExcept .configuration (Comparison.of before after)
  printLines [c.text]
  if c.isRegression then
    warn (Messages.regressions c)
    return .gateFailed
  else
    printLines [Messages.noRegressions]
    return .success

/-- Compare the records of two corpora. -/
def runCompareRecords (c : Config) (baseline current : Path) : Session m Ending := do
  let before ← loadCorpus c baseline
  let after ← loadCorpus c current
  compare (.ofRecords before.records) (.ofRecords after.records)

/-- Compare the categories of two reports. -/
def runCompareReports (c : Config) (baseline current : Path) (policy : Option PassPolicy) :
    Session m Ending := do
  let before ← lift (Report.load baseline)
  let after ← lift (Report.load current)
  printLines [Messages.delta before after]
  let policy := policy.getD c.gate.policy
  compare (.ofReport policy before) (.ofReport policy after)

/-- The baseline that is replaced, if it can be read. -/
def previousBaseline (p : Path) : ExceptT Fault m (Option Baseline) :=
  tryCatch (Baseline.load? p) fun _ => return none

/-- Make a report the baseline. -/
def runPromote (c : Config) (report : Path) (baseline : Option Path) : Session m Ending := do
  let r ← lift (Report.load report)
  let place := baseline.getD c.gate.baseline
  if let some b ← lift (previousBaseline place) then
    printLines [Messages.previousBaseline b r]
  let b ← lift (Baseline.promote place r)
  printLines [Messages.newBaseline place b]
  return .success

/-! ### Reviews and golden traces -/

/-- Draw a sample for review. -/
def runSample (c : Config) (now : Time.Instant) (corpus : Path) (fraction : Option Float)
    (seed : Option Nat) (output : Option Path) : Session m Ending := do
  let sampler ← ofExcept .configuration
    (Sampler.of (fraction.getD c.sampling.fraction) (seed.getD c.sampling.seed) c.sampling.allocation)
  let labeled ← loadLabeled c corpus
  let s := Sample.draw sampler labeled now
  let place := output.getD (Sample.defaultPath c.sampling.folder now)
  save place s.toValue
  printLines (Messages.sampled s ++ [Messages.written place])
  return .success

/-- Summarize the reviews in a directory. -/
def runSummarize (c : Config) (now : Time.Instant) (folder : Option Path) : Session m Ending := do
  let s ← lift (ReviewSummary.ofDirectory (folder.getD c.sampling.folder) now)
  print s.text
  return .success

/-- The targets for which records are picked: those of a list, or those of the settings,
perhaps with another quota. -/
def chooseTargets (c : Config) (codes : Option String) (quota : Option Nat) :
    Except ConfigurationFault (List Target) :=
  match codes, quota with
  | some codes, quota => Target.parseList codes (quota.getD Target.defaultQuota)
  | none, some quota => .ok (c.golden.targets.map fun t => { t with quota })
  | none, none => .ok c.golden.targets

/-- Pick records for error codes. -/
def runCurate (c : Config) (corpus : Path) (codes : Option String) (quota : Option Nat)
    (ranking : Option Ranking) (output : Path) : Session m Ending := do
  let targets ← ofExcept .configuration (chooseTargets c codes quota)
  let curator ← ofExcept .configuration (Curator.of targets (ranking.getD c.golden.ranking))
  let labeled ← loadLabeled c corpus
  let traces := curator.curate labeled.records
  save output (.list (traces.map Trace.toValue))
  printLines (Messages.curated curator.targets traces ++ [Messages.written output])
  return .success

/-! ### All commands -/

/-- Run a command with the given settings. -/
def runWith (c : Config) (now : Time.Instant) : Command → Session m Ending
  | .label corpus output => runLabel c corpus output
  | .report corpus output format least => runReport c now corpus output format least
  | .compareReports before after policy => runCompareReports c before after policy
  | .compareRecords before after => runCompareRecords c before after
  | .promote source place => runPromote c source place
  | .sample corpus fraction seed output => runSample c now corpus fraction seed output
  | .summarizeReviews folder => runSummarize c now folder
  | .guide => do
    print reviewGuide
    return .success
  | .curate corpus codes quota ranking output => runCurate c corpus codes quota ranking output
  | .localize corpus formula format => runLocalize c corpus formula format
  | .insights corpus output => runInsights c now corpus output

end Command

namespace Invocation

variable {m : Type → Type} [Monad m] [Storage m]

/-- Read the settings and run the command. -/
def run (i : Invocation) (now : Time.Instant) : Session m Ending := do
  let c ← Command.loadConfig i.config
  i.command.runWith c now

end Invocation

end CorpusAudit
