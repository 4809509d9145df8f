import CorpusAudit.Gate.Snapshot
import CorpusAudit.Text.Layout

/-!
# Comparing snapshots

Two snapshots of one level are compared key by key: first the keys of the one are looked up
in the other, then the keys are added that only the other has (`Changes.between`).  A key
that is in both has come to pass, has ceased to pass, or is unchanged; of a key that is in
only one of them nothing can be said.  The comparison is a regression if some key has
ceased to pass.
-/

namespace CorpusAudit

/-- What became of a key. -/
inductive Change where
  | nowPassing
  | regressed
  | unchanged
  /-- The key is in only one of the snapshots. -/
  | noPriorData
deriving DecidableEq, Repr

/-- What became of a key of the first snapshot, from whether it passes there and from what
the second one has for it. -/
def Change.of (before : Bool) : Option Bool → Change
  | none => .noPriorData
  | some after =>
    if !before && after then .nowPassing
    else if before && !after then .regressed
    else .unchanged

/-- Sets of keys, one for each change. -/
structure Changes where
  nowPassing : Table Unit := .empty
  regressed : Table Unit := .empty
  unchanged : Table Unit := .empty
  noPriorData : Table Unit := .empty
deriving DecidableEq, Repr

namespace Changes

/-- Put a key into the set of a change. -/
def add (s : Changes) (key : String) : Change → Changes
  | .nowPassing => { s with nowPassing := s.nowPassing.insert key () }
  | .regressed => { s with regressed := s.regressed.insert key () }
  | .unchanged => { s with unchanged := s.unchanged.insert key () }
  | .noPriorData => { s with noPriorData := s.noPriorData.insert key () }

/-- What became of the keys of the first table. -/
def ofFirst (before after : Table Bool) : Changes :=
  before.entries.foldl (fun s e => s.add e.1 (.of e.2 (after.find? e.1))) {}

/-- What became of the keys of two tables: those of the first one, and those that only the
second one has. -/
def between (before after : Table Bool) : Changes :=
  (after.keys.filter fun key => (before.find? key).isNone).foldl
    (fun s key => s.add key .noPriorData) (ofFirst before after)

end Changes

/-- What became of the keys of two snapshots. -/
structure Comparison where
  level : Level
  nowPassing : List String
  regressed : List String
  unchanged : List String
  noPriorData : List String
  /-- How many more keys have come to pass than have ceased to. -/
  netChange : Int
deriving DecidableEq, Repr

namespace Comparison

/-- The comparison that finds the given changes. -/
def ofChanges (level : Level) (s : Changes) : Comparison where
  level := level
  nowPassing := s.nowPassing.keys
  regressed := s.regressed.keys
  unchanged := s.unchanged.keys
  noPriorData := s.noPriorData.keys
  netChange := s.nowPassing.size - s.regressed.size

/-- Compare two snapshots; both have to be of one level. -/
def of (baseline current : Snapshot) : Except ConfigurationFault Comparison :=
  if baseline.level ≠ current.level then .error (.levels baseline.level current.level)
  else .ok (ofChanges current.level (.between baseline.entries current.entries))

/-- Whether some key has ceased to pass. -/
def isRegression (c : Comparison) : Bool :=
  !c.regressed.isEmpty

/-- A comparison as a text, with a line for every change. -/
def text (c : Comparison) : String :=
  Text.unlines (
    [c.level.name ++ " diff", Text.rule '─' 40]
      ++ c.nowPassing.map (fun k => s!"  + {k} (now passing)")
      ++ c.regressed.map (fun k => s!"  - {k} (regressed)")
      ++ c.noPriorData.map (fun k => s!"  ? {k} (no prior data)")
      ++ ["", s!"Now passing: {c.nowPassing.length}  Regressed: {c.regressed.length}  Unchanged: "
        ++ s!"{c.unchanged.length}  Net change: " ++ Text.signed c.netChange])

end Comparison

/-- How the figures of two reports differ. -/
structure ReportDelta where
  /-- The difference of the pass rates in percentage points. -/
  passRate : Float
  total : Int
deriving DecidableEq, Repr

namespace ReportDelta

/-- The part of the records of a report that passed, in percent. -/
def passPercent (r : Report) : Float :=
  Report.percentOf r.passed r.total

/-- The difference of two counts as a signed number of 64 bits. -/
def difference (m n : Nat) : Int :=
  Int.bmod (m - n) UInt64.size

/-- How the figures changed from one report to the next. -/
def between (baseline current : Report) : ReportDelta where
  passRate := passPercent current - passPercent baseline
  total := difference current.total baseline.total

/-- Whether the pass rate has risen. -/
def isImprovement (d : ReportDelta) : Bool :=
  d.passRate > 0

end ReportDelta

end CorpusAudit
