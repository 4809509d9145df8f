import CorpusAudit.Proofs.Feature
import CorpusAudit.Proofs.Insight.Ordering
import CorpusAudit.Proofs.Suspicion.Rankings

/-!
# Rankings as evidence

A ranking has every feature once, with the numbers of the records that failed and passed with
it and altogether, and is ordered by the scores that these numbers give.  It depends on
nothing but the records that have an outcome (`rankFeatures_localizes`).
-/

namespace CorpusAudit

namespace Spectrum

/-! ### Records without an outcome -/

theorem observe_of_undetermined (s : Spectrum) {r : Record} (h : r.outcome = none) :
  s.observe r = s
  := by
  rw [observe, h]

/-- The records whose outcome is known. -/
def determined (records : List Record) : List Record :=
  records.filter fun r => r.outcome.isSome

theorem collect_determined (records : List Record) :
  collect (determined records) = collect records
  := by
  apply tally.count_filter
  intro s r h
  exact s.observe_of_undetermined (by simpa using h)

/-! ### The order of a ranking -/

theorem isRanked_rank (s : Spectrum) (formula : Formula) :
  IsRanked Suspicion.score (fun x => x.feature.name) (s.rank formula)
  := by
  have hnames : ((Feature.all.toList.map (s.suspicion formula)).map
      fun x => x.feature.name).Nodup := by
    rw [List.map_map]
    exact Feature.nodup_names
  exact isRanked_ranked _ _ hnames

/-- What a ranking says of a feature is what the spectrum says of it. -/
theorem eq_suspicion_of_mem_rank {s : Spectrum} {formula : Formula} {x : Suspicion}
    (h : x ∈ s.rank formula) :
  x = s.suspicion formula x.feature
  := by
  rw [(s.rank_perm formula).mem_iff, List.mem_map] at h
  obtain ⟨f, -, rfl⟩ := h
  rfl

theorem count_feature_rank (s : Spectrum) (formula : Formula) (f : Feature) :
  ((s.rank formula).map Suspicion.feature).count f = 1
  := by
  rw [List.count_eq_length_filter, List.filter_map, List.length_map]
  show ((s.rank formula).filter fun x => x.feature == f).length = 1
  simp only [beq_eq_decide, filter_rank, List.length_singleton]

end Spectrum

/-! ### What a ranking says of records -/

/-- No more records failed or passed with a feature than failed or passed at all. -/
theorem FeatureCount.ofRecords_le (records : List Record) (f : Feature) :
  (ofRecords records f).failedWith ≤ (ofRecords records f).totalFailed
    ∧ (ofRecords records f).passedWith ≤ (ofRecords records f).totalPassed
  := by
  constructor
  all_goals
    apply List.countP_mono_left
    intro r _ h
    exact (Bool.and_eq_true_iff.mp h).1

/-- A ranking has every feature of the schema once, the most suspicious ones first and equally
suspicious ones in the order of their names, and says of each how many records failed and
passed with it and altogether. -/
structure Localizes (formula : Formula) (records : List Record) (ranking : List Suspicion) :
    Prop where
  features : ∀ f, (ranking.map Suspicion.feature).count f = 1
  counts : ∀ s ∈ ranking, s.counts = .ofRecords records s.feature
  failedWith_le : ∀ s ∈ ranking, s.counts.failedWith ≤ s.counts.totalFailed
  passedWith_le : ∀ s ∈ ranking, s.counts.passedWith ≤ s.counts.totalPassed
  score : ∀ s ∈ ranking, s.score = s.counts.score formula
  ranked : IsRanked Suspicion.score (fun s => s.feature.name) ranking

theorem localizes_rank (formula : Formula) (records : List Record) :
  Localizes formula records ((Spectrum.collect records).rank formula)
  := by
  have hcounts : ∀ s ∈ (Spectrum.collect records).rank formula,
      s.counts = .ofRecords records s.feature := by
    intro s hs
    rw [Spectrum.eq_suspicion_of_mem_rank hs, ← Spectrum.feature_collect]
    rfl
  constructor
  case features => exact Spectrum.count_feature_rank _ formula
  case counts => exact hcounts
  case failedWith_le =>
    intro s hs
    rw [hcounts s hs]
    exact (FeatureCount.ofRecords_le records s.feature).1
  case passedWith_le =>
    intro s hs
    rw [hcounts s hs]
    exact (FeatureCount.ofRecords_le records s.feature).2
  case score =>
    intro s hs
    rw [Spectrum.eq_suspicion_of_mem_rank hs]
    rfl
  case ranked => exact Spectrum.isRanked_rank _ formula

/-- There is a ranking exactly if some record has an outcome; it says what the records say of
every feature, and is the same whichever records without an outcome are among them. -/
theorem rankFeatures_localizes (formula : Formula) (records : List Record) :
  ((∃ e, rankFeatures formula records = .error e) ↔ ∀ r ∈ records, r.outcome = none)
    ∧ ((∃ r ∈ records, r.outcome ≠ none) →
      ∃ ranking, rankFeatures formula records = .ok ranking
        ∧ Localizes formula records ranking)
    ∧ ∀ records', Spectrum.determined records' = Spectrum.determined records →
      ∀ ranking, rankFeatures formula records' = .ok ranking
        ↔ rankFeatures formula records = .ok ranking
  := by
  refine ⟨?fails, ?ranks, ?same⟩
  case fails =>
    constructor
    · rintro ⟨e, he⟩
      by_contra h
      have hsome : ∃ r ∈ records, r.outcome ≠ none := by simpa using h
      rw [rankFeatures_eq_ok formula hsome] at he
      simp at he
    · intro h
      exact ⟨_, rankFeatures_eq_error formula h⟩
  case ranks =>
    intro h
    exact ⟨_, rankFeatures_eq_ok formula h, localizes_rank formula records⟩
  case same =>
    intro records' h ranking
    have hcollect : Spectrum.collect records' = Spectrum.collect records := by
      rw [← Spectrum.collect_determined records', h, Spectrum.collect_determined]
    rw [rankFeatures, rankFeatures, hcollect]
    split
    · simp
    · rfl

/-- A record that passed, one that failed, and one that was not compiled. -/
def mixedRecords : List Record :=
  [⟨"a", "x", true, some true, none, [], .ofPredicate (· = .lambda)⟩,
    ⟨"b", "x", true, some false, none, [], .ofPredicate (· = .evalExec)⟩,
    ⟨"c", "y", false, none, none, [], .ofPredicate (· = .lambda)⟩]

/-- The first two of them are ranked as all three are. -/
theorem rankFeatures_localizes_mixedRecords :
  (∃ r ∈ mixedRecords, r.outcome ≠ none)
    ∧ ∃ ranking, rankFeatures .ochiai mixedRecords = .ok ranking
      ∧ Localizes .ochiai mixedRecords ranking
      ∧ rankFeatures .ochiai (mixedRecords.take 2) = .ok ranking
  := by
  have hsome : ∃ r ∈ mixedRecords, r.outcome ≠ none := ⟨_, List.mem_cons_self, by decide⟩
  have hsame : Spectrum.determined (mixedRecords.take 2) = Spectrum.determined mixedRecords := by
    decide
  obtain ⟨-, hranks, hundetermined⟩ := rankFeatures_localizes .ochiai mixedRecords
  obtain ⟨ranking, hranking, hlocalizes⟩ := hranks hsome
  exact ⟨hsome, ranking, hranking, hlocalizes, (hundetermined _ hsame ranking).mpr hranking⟩

end CorpusAudit
