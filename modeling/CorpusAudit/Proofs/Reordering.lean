import CorpusAudit.Proofs.Golden.Codes
import CorpusAudit.Proofs.Insight.Analyses
import CorpusAudit.Proofs.Label.Counting
import CorpusAudit.Proofs.Report.Counting

/-!
# Splitting and reordering corpora

Records may be counted by several workers whose counts are merged, and they may come in any
order: the counts, and all that is made of them, stay the same
(`Corpus.independent_of_split_and_order`).
-/

namespace CorpusAudit

/-- The workers arrive at the counts that one pass over all records makes. -/
structure Split.IsFaithful (rules : RuleSet) (s : Split Record) : Prop where
  spectrum : s.count Spectrum.tally = s.items.foldl Spectrum.observe Spectrum.zero
  outcomes : s.count OutcomeCount.tally = s.items.foldl OutcomeCount.observe OutcomeCount.zero
  labels : s.count (LabelCount.tally rules)
    = s.items.foldl (LabelCount.observe rules) LabelCount.zero

theorem Split.isFaithful (rules : RuleSet) (s : Split Record) :
  s.IsFaithful rules
  where
    spectrum := Spectrum.isMergeable_tally.count_split s
    outcomes := OutcomeCount.isMergeable_tally.count_split s
    labels := (LabelCount.isMergeable_tally rules).count_split s

namespace Corpus

/-- What is computed of two corpora is the same, but for the moment at which this is done. -/
structure SameResults (rules : RuleSet) (c c' : Corpus) : Prop where
  ranking : ∀ formula, rankFeatures formula c.records = rankFeatures formula c'.records
  report : ∀ formula most now now', Report.aggregate formula most ⟨c, rules⟩ now
    = { Report.aggregate formula most ⟨c', rules⟩ now' with generatedAt := now }
  statistics : LabelStatistics.collect rules c.records = LabelStatistics.collect rules c'.records
  insights : ∀ formula now now', InsightReport.analyze formula c.records now
    = { InsightReport.analyze formula c'.records now' with generatedAt := now }
  codes : CodeCount.summarize c.records = CodeCount.summarize c'.records

variable {c c' : Corpus}

theorem aggregate_perm (h : c.records.Perm c'.records) (rules : RuleSet) (formula : Formula)
    (most : Nat) (now : Time.Instant) :
  Report.aggregate formula most ⟨c, rules⟩ now = Report.aggregate formula most ⟨c', rules⟩ now
  := by
  have houtcomes : OutcomeCount.tally.count c.records = OutcomeCount.tally.count c'.records :=
    OutcomeCount.isMergeable_tally.count_perm h
  have hlabels : (LabelCount.tally rules).count c.records
      = (LabelCount.tally rules).count c'.records :=
    (LabelCount.isMergeable_tally rules).count_perm h
  have hranking := rankFeatures_perm formula h
  simp only [Report.aggregate, LabeledCorpus.records, LabeledCorpus.statistics,
    LabelStatistics.collect, Report.mostSuspicious, houtcomes, hlabels, hranking]

/-- Neither how the records are split among workers nor in which order they come matters. -/
theorem independent_of_split_and_order (h : c.records.Perm c'.records) (rules : RuleSet) :
  (∀ s : Split Record, s.IsFaithful rules) ∧ SameResults rules c c'
  := by
  refine ⟨fun s => s.isFaithful rules, ?_⟩
  constructor
  case ranking =>
    intro formula
    exact rankFeatures_perm formula h
  case report =>
    intro formula most now now'
    rw [aggregate_perm h rules formula most now]
    rfl
  case statistics =>
    rw [LabelStatistics.collect, LabelStatistics.collect,
      (LabelCount.isMergeable_tally rules).count_perm h]
  case insights =>
    intro formula now now'
    rw [InsightReport.analyze_perm formula h now]
    rfl
  case codes => exact CodeCount.summarize_perm h

/-- A record that passed, and one that failed twice for the same cause. -/
def passedAndFailed : List Record :=
  [⟨"a", "parsing", true, some true, none, [], .empty⟩,
    ⟨"b", "parsing", true, some false, none, ["E0308", "E0308"], .empty⟩]

/-- Two workers, and one who gets no records, count as one would. -/
theorem independent_of_split_and_order_reversed :
  (Corpus.ofRecords passedAndFailed).records.Perm (Corpus.ofRecords passedAndFailed.reverse).records
    ∧ (Split.join (.part (passedAndFailed.take 1))
        (.join (.part []) (.part (passedAndFailed.drop 1)))).IsFaithful .default
    ∧ SameResults .default (.ofRecords passedAndFailed) (.ofRecords passedAndFailed.reverse)
    ∧ CodeCount.summarize passedAndFailed.reverse = [⟨"E0308", 2, 1⟩]
  := by
  have hperm : (Corpus.ofRecords passedAndFailed).records.Perm
      (Corpus.ofRecords passedAndFailed.reverse).records := (List.reverse_perm _).symm
  obtain ⟨hsplit, hsame⟩ := independent_of_split_and_order hperm .default
  refine ⟨hperm, hsplit _, hsame, ?_⟩
  cbv

end Corpus

end CorpusAudit
