import CorpusAudit.Proofs.Gate.Policies
import CorpusAudit.Proofs.Insight.Analyses

/-!
# Insights agree with reports and rankings

What an analysis says of a corpus is what the quality report and the ranking of features
say of it, though it finds it by counting anew: the categories without success are those
that have no passing record in the report, the features that block them are those of
their records, and the scores are those of the ranking
(`InsightReport.agreesWith_analyze`).
-/

namespace CorpusAudit

/-- The text names the first of the features with the greatest score, or none if there are no
features. -/
def CategoryInsight.IsAdvice (score : Feature → Float) (fs : List Feature) (text : String) : Prop :=
  (fs = [] ∧ text = "Investigate specific failure patterns")
    ∨ ∃ f, IsTop score fs f ∧ text = "Implement '" ++ f.name ++ "' support to unblock this category"

/-- An insight says of a category what its records say, with the given scores of features. -/
structure CategoryInsight.Describes (z : CategoryInsight) (records : List Record)
    (score : Feature → Float) : Prop where
  group : z.group = categoryGroup z.category
  size : z.records = records.countP fun r => r.category = z.category
  blocking : ∀ f, f ∈ z.blocking ↔ ∃ r ∈ records, r.category = z.category ∧ r.features.has f = true
  schema_order : z.blocking.Pairwise fun f g => f.index < g.index
  impact : z.impact = (z.blocking.map score).foldl (· + ·) (-0.0)
  recommendation : IsAdvice score z.blocking z.recommendation

/-- An insight says of a feature what the records of the given categories say. -/
structure FeatureInsight.Describes (p : FeatureInsight) (records : List Record)
    (categories : List String) (score : Feature → Float) : Prop where
  affected : p.affected
    = records.countP fun r => r.category ∈ categories && r.features.has p.feature
  suspiciousness : p.suspiciousness = score p.feature
  impact : p.impact = Float.ofNat p.affected * score p.feature

namespace InsightReport

/-- An analysis says of records what a report on them says, with the given scores. -/
structure AgreesWith (i : InsightReport) (records : List Record) (score : Feature → Float)
    (report : Report) : Prop where
  /-- The report counts records of these categories, none of them passing. -/
  reported : ∀ category, category ∈ i.categories
    ↔ ∃ n, report.byCategory.find? category = some n ∧ n.passed = 0
  /-- They are those that fail in the snapshot of the report, where the records of a category
  are counted in 64 bits. -/
  in_snapshot : records.length < UInt64.size → ∀ category, category ∈ i.categories
    ↔ (Snapshot.ofReport .any report).entries.find? category = some false
  once : i.categories.Nodup
  describes : ∀ z ∈ i.zeroSuccess, z.Describes records score
  ranked : IsRanked CategoryInsight.impact CategoryInsight.category i.zeroSuccess
  /-- Each of them is in the list of its group, and in no other list. -/
  grouped : ∀ category, category ∈ i.categories
    ↔ ∃ names, i.groups.find? (categoryGroup category) = some names ∧ category ∈ names
  groups_sound : ∀ e ∈ i.groups.entries, e.2 ≠ [] ∧ e.2.Pairwise (· < ·)
    ∧ ∀ category ∈ e.2, categoryGroup category = e.1
  features : ∀ f, f ∈ i.features.map FeatureInsight.feature ↔ ∃ z ∈ i.zeroSuccess, f ∈ z.blocking
  features_once : (i.features.map FeatureInsight.feature).Nodup
  features_describe : ∀ p ∈ i.features, p.Describes records i.categories score
  features_ranked : IsRanked FeatureInsight.impact (fun p => p.feature.name) i.features

variable {formula formula' : Formula} {most : Nat} {c : LabeledCorpus} {now now' : Time.Instant}

/-! ### Categories in reports -/

/-- A report has no passing record of a category exactly if the category is without success. -/
theorem passed_aggregate_eq_zero_iff (category : String) :
  (∃ n, (Report.aggregate formula most c now).byCategory.find? category = some n ∧ n.passed = 0)
    ↔ IsWithoutSuccess c.records category
  := by
  have hany : c.records.any (·.category = category) = true ↔ members c.records category ≠ [] :=
    Report.any_category_iff category
  have hpassed : (CategoryResult.ofCounts
        (PassCount.ofRecords (Report.categoryRecords c category)).passed
        (PassCount.ofRecords (Report.categoryRecords c category)).failed).passed = 0
      ↔ ∀ r ∈ members c.records category, r.isPassing = false := by
    show (members c.records category).countP _ = 0 ↔ _
    simp [List.countP_eq_zero]
  rw [Report.find?_byCategory_aggregate, IsWithoutSuccess, ← hany, ← hpassed]
  split <;> simp_all

theorem find?_snapshot_aggregate_iff (h : c.records.length < UInt64.size) (category : String) :
  (Snapshot.ofReport .any (Report.aggregate formula most c now)).entries.find? category
      = some false
    ↔ IsWithoutSuccess c.records category
  := by
  rw [Snapshot.find?_ofReport_aggregate h]
  show members c.records category ≠ [] ∧ _ ↔ _
  apply and_congr_right
  intro _
  simp [PassPolicy.Passes, members, Report.categoryRecords]

/-! ### Groups -/

theorem mem_group_iff {records : List Record} {group : String} {names : List String} :
  (analyze formula records now).groups.find? group = some names
    ↔ names ≠ [] ∧ names = (failing records).filter (categoryGroup · = group)
  := by
  show (Table.groupBy categoryGroup (failing records)).find? group = some names ↔ _
  rw [Table.find?_groupBy]
  split
  · next hnil => simp [hnil]
  · next hne =>
    rw [Option.some.injEq, eq_comm]
    constructor
    · rintro rfl
      exact ⟨hne, rfl⟩
    · exact And.right

theorem mem_categories_iff_mem_group {records : List Record} (category : String) :
  category ∈ (analyze formula records now).categories
    ↔ ∃ names, (analyze formula records now).groups.find? (categoryGroup category) = some names
      ∧ category ∈ names
  := by
  rw [mem_categories, ← mem_failing]
  constructor
  · intro hcategory
    have hmem : category ∈ (failing records).filter
        (categoryGroup · = categoryGroup category) := by
      simp [hcategory]
    exact ⟨_, mem_group_iff.mpr ⟨List.ne_nil_of_mem hmem, rfl⟩, hmem⟩
  · rintro ⟨names, hnames, hmem⟩
    rw [(mem_group_iff.mp hnames).2] at hmem
    exact (List.mem_filter.mp hmem).1

theorem groups_analyze_sound {records : List Record} {e : String × List String}
    (h : e ∈ (analyze formula records now).groups.entries) :
  e.2 ≠ [] ∧ e.2.Pairwise (· < ·) ∧ ∀ category ∈ e.2, categoryGroup category = e.1
  := by
  obtain ⟨hne, hnames⟩ := mem_group_iff.mp (Table.mem_entries_iff.mp h)
  refine ⟨hne, ?_, ?_⟩
  · rw [hnames]
    exact (ascending_failing records).filter _
  · intro category hcategory
    rw [hnames] at hcategory
    simpa using (List.mem_filter.mp hcategory).2

/-! ### Single insights -/

theorem isAdvice_recommend (score : Feature → Float) {fs : List Feature}
    (h : fs.Pairwise fun f g => f.index < g.index) :
  CategoryInsight.IsAdvice score fs (CategoryInsight.recommend score fs)
  := by
  by_cases hfs : fs = []
  · subst hfs
    exact Or.inl ⟨rfl, rfl⟩
  · obtain ⟨f, hf, htop⟩ := CategoryInsight.exists_topFeature? score h hfs
    right
    use f, htop
    rw [CategoryInsight.recommend, hf]
    rfl

theorem describes_insightOn (formula : Formula) (records : List Record) (category : String) :
  (insightOn formula records category).Describes records (scores formula records)
  where
    group := rfl
    size := by
      rw [List.countP_eq_length_filter]
      rfl
    blocking := by
      intro f
      show f ∈ CategoryInsight.blockingFeatures (members records category) ↔ _
      rw [CategoryInsight.mem_blockingFeatures]
      simp only [mem_members, and_assoc]
      rfl
    schema_order := CategoryInsight.pairwise_blockingFeatures _
    impact := by
      rw [List.foldl_map]
      rfl
    recommendation := isAdvice_recommend _ (CategoryInsight.pairwise_blockingFeatures _)

theorem describes_insightOnFeature (formula : Formula) (records : List Record) (f : Feature) :
  (insightOnFeature formula records f).Describes records (failing records) (scores formula records)
  := ⟨rfl, rfl, rfl⟩

/-! ### The whole analysis -/

/-- The features with an insight are those that block a category. -/
theorem mem_features_iff_blocking {records : List Record} (f : Feature) :
  f ∈ (analyze formula records now).features.map FeatureInsight.feature
    ↔ ∃ z ∈ (analyze formula records now).zeroSuccess, f ∈ z.blocking
  := by
  rw [(features_perm formula records now).mem_iff, mem_blockers]
  constructor
  · rintro ⟨category, hcategory, hf⟩
    exact ⟨_, mem_zeroSuccess.mpr ⟨category, hcategory, rfl⟩,
      CategoryInsight.mem_blockingFeatures.mpr hf⟩
  · rintro ⟨z, hz, hf⟩
    obtain ⟨category, hcategory, rfl⟩ := mem_zeroSuccess.mp hz
    exact ⟨category, hcategory, CategoryInsight.mem_blockingFeatures.mp hf⟩

/-- An analysis agrees with every report on the same corpus, and with the ranking of its
features. -/
theorem agreesWith_analyze (formula formula' : Formula) (most : Nat) (c : LabeledCorpus)
    (now now' : Time.Instant) :
  ∃ score : Feature → Float, (∀ f, IsScore formula c.records f (score f))
    ∧ (analyze formula c.records now).AgreesWith c.records score
        (Report.aggregate formula' most c now')
  := by
  use scores formula c.records, isScore_scores formula c.records
  constructor
  case reported =>
    intro category
    rw [mem_categories, passed_aggregate_eq_zero_iff]
  case in_snapshot =>
    intro hfew category
    rw [mem_categories, find?_snapshot_aggregate_iff hfew]
  case once => exact (categories_perm formula c.records now).nodup_iff.mpr (nodup_failing c.records)
  case describes =>
    intro z hz
    obtain ⟨category, -, rfl⟩ := mem_zeroSuccess.mp hz
    apply describes_insightOn
  case ranked => apply isRanked_zeroSuccess
  case grouped => exact mem_categories_iff_mem_group
  case groups_sound => exact fun e he => groups_analyze_sound he
  case features => exact mem_features_iff_blocking
  case features_once =>
    exact (features_perm formula c.records now).nodup_iff.mpr (nodup_blockers c.records)
  case features_describe =>
    intro p hp
    obtain ⟨f, -, rfl⟩ := mem_features.mp hp
    have hcategories : ∀ category,
        category ∈ (analyze formula c.records now).categories ↔ category ∈ failing c.records := by
      intro category
      rw [mem_categories, mem_failing]
    have hdescribes := describes_insightOnFeature formula c.records f
    exact ⟨by simpa only [hcategories] using hdescribes.affected, hdescribes.suspiciousness,
      hdescribes.impact⟩
  case features_ranked => apply isRanked_features

end InsightReport

end CorpusAudit
