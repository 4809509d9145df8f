import CorpusAudit.Command.Words
import CorpusAudit.Config

/-!
# Commands

A `Command` is what a user can ask for, and an `Invocation` a command together with the
file that holds the settings.  `Invocation.parse` reads the words of a command line: the
name of a command, which options that all commands share may precede, and the operands
and options of the command.
-/

namespace CorpusAudit

/-- How a result is printed. -/
inductive Format where
  | text
  | json
  | markdown
deriving DecidableEq, Repr, Inhabited

namespace Format

/-- The name of a format on the command line. -/
def name : Format → String
  | .text => "text"
  | .json => "json"
  | .markdown => "markdown"

/-- The format with the given name. -/
def ofName? (s : String) : Option Format :=
  [Format.text, .json, .markdown].find? (·.name = s)

end Format

/-- What a user can ask for. -/
inductive Command where
  /-- Label the records of a corpus and write them. -/
  | label (corpus output : Path)
  /-- Grade a corpus. -/
  | report (corpus : Path) (output : Option Path) (format : Format) (least : Option Grade)
  /-- Compare the categories of two reports. -/
  | compareReports (baseline current : Path) (policy : Option PassPolicy)
  /-- Compare the records of two corpora. -/
  | compareRecords (baseline current : Path)
  /-- Make a report the baseline. -/
  | promote (report : Path) (baseline : Option Path)
  /-- Draw a sample of a corpus for review. -/
  | sample (corpus : Path) (fraction : Option Float) (seed : Option Nat) (output : Option Path)
  /-- Summarize the reviews in a directory. -/
  | summarizeReviews (folder : Option Path)
  /-- Print guidance for reviews. -/
  | guide
  /-- Pick records for error codes. -/
  | curate (corpus : Path) (codes : Option String) (quota : Option Nat)
      (ranking : Option Ranking) (output : Path)
  /-- Rank the features by their suspiciousness. -/
  | localize (corpus : Path) (formula : Option Formula) (format : Format)
  /-- Find the categories without successes, and what blocks them. -/
  | insights (corpus : Path) (output : Option Path)
deriving DecidableEq, Repr

namespace Command

/-! ### Options -/

/-- A path that is not empty. -/
def path? (s : String) : Option Path :=
  if s = "" then none else some ⟨s⟩

/-- The file that holds the settings. -/
def config : Setting Path where
  name := "config"
  read := path?

/-- The file to which the result is written. -/
def output : Setting Path where
  name := "output"
  letter := some 'o'
  read := path?

/-- The format in which the result is printed. -/
def format : Setting Format where
  name := "format"
  read := Format.ofName?

/-- The worst grade that is good enough. -/
def minGrade : Setting Grade where
  name := "min-grade"
  read := Grade.parse?

/-- When a category passes. -/
def policy : Setting PassPolicy where
  name := "policy"
  read := PassPolicy.ofName?

/-- The file that holds the baseline. -/
def baseline : Setting Path where
  name := "baseline"
  read := path?

/-- The part of every category that is drawn. -/
def fraction : Setting Float where
  name := "fraction"
  read s := Decimal.float? s.toList

/-- The seed of a sample. -/
def seed : Setting Nat where
  name := "seed"
  read s := Decimal.count? s.toList

/-- The directory that holds reviews. -/
def folder : Setting Path where
  name := "dir"
  read := path?

/-- Error codes with quotas, as a list. -/
def codes : Setting String where
  name := "codes"
  read := some

/-- The quota of the codes that are given without one. -/
def quota : Setting Nat where
  name := "per-code"
  read s := Decimal.count? s.toList

/-- The order in which records are picked. -/
def ranking : Setting Ranking where
  name := "ranking"
  read := Ranking.ofName?

/-- The formula for suspiciousness. -/
def formula : Setting Formula where
  name := "formula"
  read := Formula.ofName?

/-- Compare records, not categories. -/
def byRecord : OptionRule :=
  ⟨"by-record", none, .switch⟩

/-- The options that all commands share.  The two switches ask for messages on the
progress of a command, of which there are none. -/
def sharedOptions : List OptionRule :=
  [config.rule, ⟨"verbose", some 'v', .switch⟩, ⟨"debug", some 'd', .switch⟩,
    ⟨"help", some 'h', .stop .help⟩]

/-! ### The commands by name -/

/-- How a command is given: its name, its operands and options, and the command that they
make; there is none if something is missing or does not fit together. -/
structure Form where
  name : String
  operands : Nat
  options : List OptionRule
  build : Given → Option Command

namespace Form

/-- Label a corpus: the corpus and the output have to be given. -/
def label : Form where
  name := "label"
  operands := 1
  options := [output.rule]
  build g := do
    let [corpus] := g.operands | none
    return .label ⟨corpus⟩ (← output.value? g)

/-- Grade a corpus. -/
def report : Form where
  name := "report"
  operands := 1
  options := [output.rule, format.rule, minGrade.rule]
  build g := do
    let [corpus] := g.operands | none
    return .report ⟨corpus⟩ (output.value? g) ((format.value? g).getD .text) (minGrade.value? g)

/-- Compare two reports, or the records of two corpora, which leaves no policy to be given. -/
def diff : Form where
  name := "diff"
  operands := 2
  options := [byRecord, policy.rule]
  build g := do
    let [before, after] := g.operands | none
    match g.has byRecord.name, policy.value? g with
    | true, none => return .compareRecords ⟨before⟩ ⟨after⟩
    | true, some _ => none
    | false, p => return .compareReports ⟨before⟩ ⟨after⟩ p

/-- Make a report the baseline. -/
def promote : Form where
  name := "baseline"
  operands := 1
  options := [baseline.rule]
  build g := do
    let [report] := g.operands | none
    return .promote ⟨report⟩ (baseline.value? g)

/-- Draw a sample. -/
def sample : Form where
  name := "sample"
  operands := 1
  options := [fraction.rule, seed.rule, output.rule]
  build g := do
    let [corpus] := g.operands | none
    return .sample ⟨corpus⟩ (fraction.value? g) (seed.value? g) (output.value? g)

/-- Summarize reviews. -/
def summarizeReviews : Form where
  name := "hitl-summary"
  operands := 0
  options := [folder.rule]
  build g := some (.summarizeReviews (folder.value? g))

/-- Print guidance for reviews. -/
def guide : Form where
  name := "hitl-guide"
  operands := 0
  options := []
  build _ := some .guide

/-- Pick records for error codes: the corpus and the output have to be given. -/
def curate : Form where
  name := "golden"
  operands := 1
  options := [codes.rule, quota.rule, ranking.rule, output.rule]
  build g := do
    let [corpus] := g.operands | none
    return .curate ⟨corpus⟩ (codes.value? g) (quota.value? g) (ranking.value? g) (← output.value? g)

/-- Rank the features. -/
def localize : Form where
  name := "localize"
  operands := 1
  options := [formula.rule, format.rule]
  build g := do
    let [corpus] := g.operands | none
    return .localize ⟨corpus⟩ (formula.value? g) ((format.value? g).getD .text)

/-- Find what blocks categories. -/
def insights : Form where
  name := "insights"
  operands := 1
  options := [output.rule]
  build g := do
    let [corpus] := g.operands | none
    return .insights ⟨corpus⟩ (output.value? g)

/-- How the commands are given. -/
def all : List Form :=
  [label, report, diff, promote, sample, summarizeReviews, guide, curate, localize, insights]

/-- The command with the given name. -/
def ofName? (name : String) : Option Form :=
  all.find? (·.name = name)

/-- What may follow the name of a command. -/
def signature (f : Form) : Signature :=
  ⟨f.operands, f.options ++ sharedOptions⟩

end Form

end Command

/-- A command and the file that holds its settings. -/
structure Invocation where
  command : Command
  config : Path
deriving DecidableEq, Repr

namespace Invocation

open Command

/-- What may precede the name of a command. -/
def signature : Signature :=
  ⟨0, sharedOptions ++ [⟨"version", some 'V', .stop .version⟩]⟩

/-- The word that asks for help on the command whose name follows. -/
def helpName : String := "help"

/-- Whether help is there for the words after `help`. -/
def hasHelp : List String → Bool
  | [] => true
  | [name] => name = helpName || (Form.ofName? name).isSome
  | _ => false

/-- Read the words after the name of a command, where `p` is what precedes the name.  An
option that is given at both places counts as it is given after the name. -/
def parseForm (f : Form) (p : Progress) (words : List String) : Except Refusal Invocation := do
  let given ← f.signature.read words
  let some command := f.build given | .error .usage
  let before ← p.settle
  return ⟨command, ((Command.config.value? given).or (Command.config.value? before)).getD Config.defaultPath⟩

/-- Read a command line. -/
def parse (words : List String) : Except Refusal Invocation := do
  match ← signature.scan .start words with
  | (_, []) => .error .usage
  | (p, name :: words) =>
    if p.closed then .error .usage
    else if name = helpName then .error (if hasHelp words then .help else .usage)
    else match Form.ofName? name with
      | some f => parseForm f p words
      | none => .error .usage

/-- How the program is used. -/
def usage : String :=
  Text.unlines ("Usage: [options] <command> [operands] [options]" :: "" :: "Commands:"
    :: Form.all.map fun f => "  " ++ f.name)

/-- The version of the program. -/
def version : String := "0.1.0"

end Invocation

end CorpusAudit
