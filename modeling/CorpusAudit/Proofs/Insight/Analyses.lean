import CorpusAudit.Proofs.Feature
import CorpusAudit.Proofs.Insight.Categories
import CorpusAudit.Proofs.Insight.Ordering
import CorpusAudit.Proofs.Suspicion.Rankings

/-!
# The parts of an analysis

The insights of an analysis are those on the categories without success and on the
features that some of their records have, each counted over the whole corpus.  An
analysis does not depend on the order of the records (`InsightReport.analyze_perm`).
-/

namespace CorpusAudit

theorem Feature.pairwise_index :
  Feature.all.toList.Pairwise fun f g => f.index < g.index
  := by
  decide

theorem Feature.nodup_all :
  Feature.all.toList.Nodup
  := by
  decide

namespace CategoryInsight

theorem mem_blockingFeatures {records : List Record} {f : Feature} :
  f ∈ blockingFeatures records ↔ ∃ r ∈ records, r.features.has f = true
  := by
  rw [blockingFeatures, List.mem_filter, and_iff_right (Feature.mem_all f), List.any_eq_true]

theorem pairwise_blockingFeatures (records : List Record) :
  (blockingFeatures records).Pairwise fun f g => f.index < g.index
  := Feature.pairwise_index.filter _

theorem blockingFeatures_perm {records records' : List Record} (h : records.Perm records') :
  blockingFeatures records = blockingFeatures records'
  := by
  rw [blockingFeatures, blockingFeatures]
  apply List.filter_congr
  intro f _
  rw [h.any_eq]

theorem ofRecords_perm {records records' : List Record} (h : records.Perm records')
    (score : Feature → Float) (category : String) :
  ofRecords score category records = ofRecords score category records'
  := by
  rw [ofRecords, ofRecords, h.length_eq, blockingFeatures_perm h]

end CategoryInsight

namespace InsightReport

variable {records records' : List Record}

/-! ### Scores -/

/-- The score that a ranking over records has for a feature, zero if there is no ranking. -/
def IsScore (formula : Formula) (records : List Record) (f : Feature) (x : Float) : Prop :=
  match rankFeatures formula records with
  | .ok ranking => (ranking.filter (·.feature = f)).map Suspicion.score = [x]
  | .error _ => x = 0

theorem isScore_scores (formula : Formula) (records : List Record) (f : Feature) :
  IsScore formula records f (scores formula records f)
  := by
  by_cases h : ∃ r ∈ records, r.outcome ≠ none
  · rw [IsScore, scores, rankFeatures_eq_ok formula h]
    simp only [Spectrum.filter_rank, Spectrum.find?_rank, List.map_singleton, Option.map_some,
      Option.getD_some]
  · have hnone : ∀ r ∈ records, r.outcome = none := by simpa using h
    rw [IsScore, scores, rankFeatures_eq_error formula hnone]

theorem scores_perm (formula : Formula) (h : records.Perm records') :
  scores formula records = scores formula records'
  := by
  rw [scores, scores, rankFeatures_perm formula h]

/-! ### Categories -/

/-- The insight on a category of a corpus. -/
def insightOn (formula : Formula) (records : List Record) (category : String) : CategoryInsight :=
  .ofRecords (scores formula records) category (members records category)

/-- Each category without success has its insight. -/
theorem zeroSuccess_perm_map (formula : Formula) (records : List Record) (now : Time.Instant) :
  (analyze formula records now).zeroSuccess.Perm
    ((failing records).map (insightOn formula records))
  := by
  apply (List.mergeSort_perm _ _).trans
  rw [withoutSuccess_eq, List.map_map]
  rfl

theorem mem_zeroSuccess {formula : Formula} {now : Time.Instant} {z : CategoryInsight} :
  z ∈ (analyze formula records now).zeroSuccess
    ↔ ∃ category, IsWithoutSuccess records category ∧ insightOn formula records category = z
  := by
  rw [(zeroSuccess_perm_map formula records now).mem_iff, List.mem_map]
  simp only [mem_failing]

/-- The categories that an analysis lists as being without success. -/
def categories (i : InsightReport) : List String :=
  i.zeroSuccess.map CategoryInsight.category

theorem categories_perm (formula : Formula) (records : List Record) (now : Time.Instant) :
  (analyze formula records now).categories.Perm (failing records)
  := by
  have hnames : ((failing records).map (insightOn formula records)).map CategoryInsight.category
      = failing records := by
    rw [List.map_map]
    apply List.map_id
  rw [← hnames]
  exact (zeroSuccess_perm_map formula records now).map _

theorem mem_categories {formula : Formula} {now : Time.Instant} {category : String} :
  category ∈ (analyze formula records now).categories ↔ IsWithoutSuccess records category
  := by
  rw [(categories_perm formula records now).mem_iff, mem_failing]

/-- Categories are ranked by impact, and by name where the impact is the same. -/
theorem isRanked_zeroSuccess (formula : Formula) (records : List Record) (now : Time.Instant) :
  IsRanked CategoryInsight.impact CategoryInsight.category
    (analyze formula records now).zeroSuccess
  := by
  apply isRanked_ranked
  rw [List.map_map]
  exact nodup_failing records

/-! ### Features -/

/-- How many records of categories without success have a feature. -/
def affected (records : List Record) (f : Feature) : Nat :=
  records.countP fun r => r.category ∈ failing records && r.features.has f

theorem affectedBy_withoutSuccess (records : List Record) :
  affectedBy (withoutSuccess records)
    = (Feature.all.toList.map fun f => (f, affected records f)).filter fun e => e.2 ≠ 0
  := by
  have hcount (f : Feature) : ((withoutSuccess records).flatMap (·.2)).countP
        (fun r => r.features.has f) = affected records f := by
    rw [(perm_flatMap_withoutSuccess records).countP_eq, List.countP_filter, affected]
    simp only [Bool.and_comm]
  simp only [affectedBy, hcount]

/-- The insight on a feature of a corpus. -/
def insightOnFeature (formula : Formula) (records : List Record) (f : Feature) : FeatureInsight :=
  .of (scores formula records) f (affected records f)

/-- The features that some record of a category without success has, in schema order. -/
def blockers (records : List Record) : List Feature :=
  Feature.all.toList.filter fun f => affected records f ≠ 0

theorem mem_blockers {f : Feature} :
  f ∈ blockers records
    ↔ ∃ category, IsWithoutSuccess records category
      ∧ ∃ r ∈ members records category, r.features.has f = true
  := by
  have hpos : affected records f ≠ 0
      ↔ ∃ r ∈ records, r.category ∈ failing records ∧ r.features.has f = true := by
    rw [affected, ← Nat.pos_iff_ne_zero, List.countP_pos_iff]
    simp
  rw [blockers, List.mem_filter, and_iff_right (Feature.mem_all f), decide_eq_true_iff, hpos]
  simp only [mem_failing, members, List.mem_filter, decide_eq_true_eq]
  grind

theorem map_affectedBy (formula : Formula) (records : List Record) :
  (affectedBy (withoutSuccess records)).map
      (fun e => FeatureInsight.of (scores formula records) e.1 e.2)
    = (blockers records).map (insightOnFeature formula records)
  := by
  rw [affectedBy_withoutSuccess, List.filter_map, List.map_map]
  rfl

/-- Each feature that blocks a category has its insight. -/
theorem features_perm_map (formula : Formula) (records : List Record) (now : Time.Instant) :
  (analyze formula records now).features.Perm
    ((blockers records).map (insightOnFeature formula records))
  := by
  rw [← map_affectedBy]
  exact List.mergeSort_perm _ _

theorem mem_features {formula : Formula} {now : Time.Instant} {p : FeatureInsight} :
  p ∈ (analyze formula records now).features
    ↔ ∃ f ∈ blockers records, insightOnFeature formula records f = p
  := by
  rw [(features_perm_map formula records now).mem_iff, List.mem_map]

theorem features_perm (formula : Formula) (records : List Record) (now : Time.Instant) :
  ((analyze formula records now).features.map FeatureInsight.feature).Perm (blockers records)
  := by
  have hfeatures : ((blockers records).map (insightOnFeature formula records)).map
      FeatureInsight.feature = blockers records := by
    rw [List.map_map]
    apply List.map_id
  rw [← hfeatures]
  exact (features_perm_map formula records now).map _

theorem nodup_blockers (records : List Record) :
  (blockers records).Nodup
  := Feature.nodup_all.filter _

/-- Features are ranked by impact, and by name where the impact is the same. -/
theorem isRanked_features (formula : Formula) (records : List Record) (now : Time.Instant) :
  IsRanked FeatureInsight.impact (fun p => p.feature.name) (analyze formula records now).features
  := by
  apply isRanked_ranked FeatureInsight.impact
  rw [map_affectedBy, List.map_map]
  exact (List.filter_sublist.map Feature.name).nodup Feature.nodup_names

/-! ### Reordered records -/

/-- The order of the records does not matter. -/
theorem analyze_perm (formula : Formula) (h : records.Perm records') (now : Time.Instant) :
  analyze formula records now = analyze formula records' now
  := by
  have hscores := scores_perm formula h
  have hfailing := failing_perm h
  have hcategories : (withoutSuccess records).map
        (fun e => CategoryInsight.ofRecords (scores formula records') e.1 e.2)
      = (withoutSuccess records').map
        fun e => CategoryInsight.ofRecords (scores formula records') e.1 e.2 := by
    rw [withoutSuccess_eq, withoutSuccess_eq, List.map_map, List.map_map, hfailing]
    apply List.map_congr_left
    intro category _
    exact CategoryInsight.ofRecords_perm (members_perm h category) _ category
  have haffected : affected records = affected records' := by
    funext f
    rw [affected, affected, hfailing, h.countP_eq]
  have hfeatures : affectedBy (withoutSuccess records) = affectedBy (withoutSuccess records') := by
    rw [affectedBy_withoutSuccess, affectedBy_withoutSuccess, haffected]
  have hgroups : (withoutSuccess records).map (·.1) = (withoutSuccess records').map (·.1) :=
    hfailing
  simp only [analyze, hscores, hcategories, hfeatures, hgroups]

end InsightReport

end CorpusAudit
