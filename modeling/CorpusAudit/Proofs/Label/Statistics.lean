import CorpusAudit.Proofs.Report.Consistency
import CorpusAudit.Proofs.Rule.Reachability

/-!
# Statistics describe labels

The statistics of labels are counted from the rules that match each record, and not from the
labels.  But since the last rule is the only catch-all, and the only rule with its name, they
say how many labels have each tier, and how many name another rule than the last
(`LabeledCorpus.statistics_describe`).  Rules of different tiers compete only for records that
another rule than the last is the first to match.
-/

namespace CorpusAudit

/-! ### The last rule -/

namespace RuleSet

variable (s : RuleSet) (features : FeatureSet) {r : Rule}

theorem mem_rules_iff :
  r ∈ s.rules ↔ r ∈ s.rules.dropLast ∨ r = s.fallback
  := by
  conv_lhs => rw [rules_eq]
  rw [List.mem_append, List.mem_singleton]

theorem isCatchAll_of_mem_dropLast (h : r ∈ s.rules.dropLast) :
  r.condition.isCatchAll = false
  := by
  rw [Bool.eq_false_iff, ne_eq, Condition.isCatchAll_iff]
  exact s.isPrecedence.earlier r h

theorem isCatchAll_fallback :
  s.fallback.condition.isCatchAll = true
  := Condition.isCatchAll_iff.mpr s.fallback_eq.1

theorem name_ne_of_mem_dropLast (h : r ∈ s.rules.dropLast) :
  r.name ≠ s.fallback.name
  := by
  have hnames := s.isPrecedence.names
  rw [rules_eq, List.map_append, List.nodup_append] at hnames
  exact hnames.2.2 _ (List.mem_map_of_mem h) _ (List.mem_map_of_mem List.mem_cons_self)

/-- The catch-all is the rule with the name of the last one. -/
theorem isCatchAll_iff_name_eq (h : r ∈ s.rules) :
  r.condition.isCatchAll = true ↔ r.name = s.fallback.name
  := by
  rcases s.mem_rules_iff.mp h with h | rfl
  · simp [s.isCatchAll_of_mem_dropLast h, s.name_ne_of_mem_dropLast h]
  · simp [s.isCatchAll_fallback]

/-- If another rule than the last matches, such a rule is the first match. -/
theorem firstMatch_mem_dropLast (h : r ∈ s.rules.dropLast)
    (hmatches : Rule.matchesFeatures features r = true) :
  s.firstMatch features ∈ s.rules.dropLast
  := by
  have hsome : (s.rules.dropLast.find? (Rule.matchesFeatures features)).isSome = true :=
    List.find?_isSome.mpr ⟨r, h, hmatches⟩
  obtain ⟨q, hq⟩ := Option.isSome_iff_exists.mp hsome
  have hfind := s.find?_eq_firstMatch features
  rw [rules_eq, List.find?_append, hq, Option.some_or, Option.some.injEq] at hfind
  rw [← hfind]
  exact List.mem_of_find?_eq_some hq

/-! ### Rules that compete -/

/-- Rules of different tiers match, the catch-all left aside. -/
def Compete : Prop :=
  ∃ p ∈ s.rules, ∃ q ∈ s.rules,
    (Rule.matchesFeatures features p = true ∧ p.condition ≠ .always)
      ∧ (Rule.matchesFeatures features q = true ∧ q.condition ≠ .always)
      ∧ p.tier ≠ q.tier

instance : Decidable (s.Compete features) :=
  inferInstanceAs (Decidable (∃ p ∈ s.rules, ∃ q ∈ s.rules, _))

theorem mem_filter_matching :
  r ∈ (s.matching features).filter (fun r => !r.condition.isCatchAll)
    ↔ r ∈ s.rules ∧ Rule.matchesFeatures features r = true ∧ r.condition ≠ .always
  := by
  rw [matching, List.mem_filter, List.mem_filter, Bool.not_eq_true', Bool.eq_false_iff, ne_eq,
    Condition.isCatchAll_iff, and_assoc]

/-- Rules compete only where another rule than the last is the first match. -/
theorem name_firstMatch_ne_of_compete (h : s.Compete features) :
  (s.firstMatch features).name ≠ s.fallback.name
  := by
  obtain ⟨p, hp, -, -, ⟨hmatches, hcondition⟩, -⟩ := h
  apply s.name_ne_of_mem_dropLast
  apply s.firstMatch_mem_dropLast features _ hmatches
  apply (s.mem_rules_iff.mp hp).resolve_right
  rintro rfl
  exact hcondition s.fallback_eq.1

end RuleSet

namespace LabelCount

variable (rules : RuleSet) (features : FeatureSet) (records : List Record)

/-- A first item that differs from another one tells whether any two differ. -/
theorem any_ne_iff {t : Tier} {ts : List Tier} :
  (ts.any fun u => u ≠ t) = true ↔ ∃ u ∈ t :: ts, ∃ v ∈ t :: ts, u ≠ v
  := by
  simp only [List.any_eq_true, decide_eq_true_eq]
  constructor
  · rintro ⟨u, hu, hne⟩
    exact ⟨u, List.mem_cons_of_mem t hu, t, List.mem_cons_self, hne⟩
  · rintro ⟨u, hu, v, hv, hne⟩
    by_contra hsame
    have heq (w : Tier) (hw : w ∈ t :: ts) : w = t := by
      rcases List.mem_cons.mp hw with rfl | hw
      · rfl
      · by_contra hwt
        exact hsame ⟨w, hw, hwt⟩
    exact hne ((heq u hu).trans (heq v hv).symm)

theorem hasConflict_iff :
  hasConflict rules features = true ↔ rules.Compete features
  := by
  have htiers : rules.Compete features
      ↔ ∃ t ∈ ((rules.matching features).filter fun r => !r.condition.isCatchAll).map Rule.tier,
        ∃ u ∈ ((rules.matching features).filter fun r => !r.condition.isCatchAll).map Rule.tier,
          t ≠ u := by
    constructor
    · rintro ⟨p, hp, q, hq, hpmatches, hqmatches, hne⟩
      have hptier := (rules.mem_filter_matching features).mpr ⟨hp, hpmatches⟩
      have hqtier := (rules.mem_filter_matching features).mpr ⟨hq, hqmatches⟩
      exact ⟨p.tier, List.mem_map_of_mem hptier, q.tier, List.mem_map_of_mem hqtier, hne⟩
    · rintro ⟨t, ht, u, hu, hne⟩
      obtain ⟨p, hp, rfl⟩ := List.mem_map.mp ht
      obtain ⟨q, hq, rfl⟩ := List.mem_map.mp hu
      obtain ⟨hp, hpmatches⟩ := (rules.mem_filter_matching features).mp hp
      obtain ⟨hq, hqmatches⟩ := (rules.mem_filter_matching features).mp hq
      exact ⟨p, hp, q, hq, hpmatches, hqmatches, hne⟩
  rw [hasConflict, htiers]
  cases ((rules.matching features).filter fun r => !r.condition.isCatchAll).map Rule.tier with
  | nil => simp
  | cons t ts => exact any_ne_iff

/-! ### Counts over records -/

theorem count_total :
  ((tally rules).count records).total = records.length
  := by
  have hall := (tally rules).count_eq_countP (f := LabelCount.total) (p := fun _ => true) rfl
    (fun _ _ => rfl) records
  rw [hall, List.countP_true]

theorem count_transpiled (t : Tier) :
  (((tally rules).count records).tiers.get t).transpiled
    = records.countP fun r => r.transpiled && (rules.label r).tier = t
  := by
  apply (tally rules).count_eq_countP (f := fun n => (n.tiers.get t).transpiled)
  · simp [tally, zero]
  · intro n r
    simp only [tally, observe, ByTier.get_of, RuleSet.label]
    by_cases h : t = (rules.firstMatch r.features).tier
    · simp [h, TierCount.observe]
    · simp [h, Ne.symm h]

theorem count_covered :
  ((tally rules).count records).covered
    = records.countP fun r => (rules.label r).rule ≠ rules.fallback.name
  := by
  apply (tally rules).count_eq_countP (f := LabelCount.covered) rfl
  intro n r
  have hname := rules.isCatchAll_iff_name_eq (rules.firstMatch_mem r.features)
  simp only [tally, observe, RuleSet.label, hname]
  by_cases h : (rules.firstMatch r.features).name = rules.fallback.name
  · simp [h]
  · simp [h]

theorem count_conflicts :
  ((tally rules).count records).conflicts = records.countP fun r => rules.Compete r.features
  := by
  apply (tally rules).count_eq_countP (f := LabelCount.conflicts) rfl
  intro n r
  simp only [tally, observe, hasConflict_iff, decide_eq_true_eq]

end LabelCount

/-! ### Labels and statistics -/

/-- Statistics describe the labels that a rule set gives to records. -/
structure LabelStatistics.Describes (s : LabelStatistics) (rules : RuleSet)
    (records : List Record) (labels : List Label) : Prop where
  /-- The labels are those of the records, in their order. -/
  aligned : ∀ i : Nat, labels[i]? = records[i]?.map rules.label
  total : s.counts.total = records.length
  distribution : ∀ t, s.distribution.get t = labels.countP (·.tier = t)
  counts : ∀ t, (s.counts.tiers.get t).count = labels.countP (·.tier = t)
  sum_distribution : (Tier.all.map s.distribution.get).sum = s.counts.total
  transpiled : ∀ t, (s.counts.tiers.get t).transpiled
    = (records.zip labels).countP fun e => e.1.transpiled && e.2.tier = t
  covered : s.counts.covered = labels.countP (·.rule ≠ rules.fallback.name)
  conflicts : s.counts.conflicts = records.countP fun r => rules.Compete r.features
  conflicts_le : s.counts.conflicts ≤ s.counts.covered

namespace LabeledCorpus

variable (c : LabeledCorpus)

theorem countP_labels (p : Label → Bool) :
  c.labels.countP p = c.records.countP fun r => p (c.rules.label r)
  := by
  rw [labels, List.countP_map]
  rfl

theorem distribution_statistics (t : Tier) :
  c.statistics.distribution.get t = c.labels.countP (·.tier = t)
  := by
  rw [countP_labels, ← c.ofTier_statistics]
  exact ByTier.get_of _ t

theorem sum_distribution_statistics :
  (Tier.all.map c.statistics.distribution.get).sum = c.records.length
  := by
  rw [funext c.distribution_statistics]
  simp only [countP_labels]
  apply Report.sum_countP_tier fun r => (c.rules.label r).tier

/-- The transpiled records of all tiers are the transpiled records. -/
theorem sum_transpiled_statistics :
  (Tier.all.map fun t => (c.statistics.counts.tiers.get t).transpiled).sum
    = c.records.countP Record.transpiled
  := by
  have hamong (t : Tier) : (c.statistics.counts.tiers.get t).transpiled
      = (c.records.filter Record.transpiled).countP fun r => (c.rules.label r).tier = t := by
    rw [List.countP_filter]
    simp only [Bool.and_comm]
    exact LabelCount.count_transpiled c.rules c.records t
  rw [funext hamong, Report.sum_countP_tier fun r => (c.rules.label r).tier,
    List.countP_eq_length_filter]

theorem conflicts_le_covered_statistics :
  c.statistics.counts.conflicts ≤ c.statistics.counts.covered
  := by
  have hconflicts := LabelCount.count_conflicts c.rules c.records
  have hcovered := LabelCount.count_covered c.rules c.records
  show ((LabelCount.tally c.rules).count c.records).conflicts
    ≤ ((LabelCount.tally c.rules).count c.records).covered
  rw [hconflicts, hcovered]
  apply List.countP_mono_left
  intro r _ h
  exact decide_eq_true (c.rules.name_firstMatch_ne_of_compete r.features (of_decide_eq_true h))

/-- The statistics of a labelled corpus describe its labels, and count as many transpiled records
as every report on it. -/
theorem statistics_describe (c : LabeledCorpus) :
  c.statistics.Describes c.rules c.records c.labels
    ∧ ∀ formula most now,
      (Tier.all.map fun t => (c.statistics.counts.tiers.get t).transpiled).sum
        = (Report.aggregate formula most c now).transpiled
  := by
  constructor
  · constructor
    case aligned =>
      intro i
      rw [labels, List.getElem?_map]
    case total => exact LabelCount.count_total c.rules c.records
    case distribution => exact c.distribution_statistics
    case counts =>
      intro t
      rw [countP_labels]
      exact LabelCount.count_tier c.rules c.records t
    case sum_distribution =>
      rw [sum_distribution_statistics]
      exact (LabelCount.count_total c.rules c.records).symm
    case transpiled =>
      intro t
      rw [labels, ← List.map_prod_left_eq_zip, List.countP_map]
      exact LabelCount.count_transpiled c.rules c.records t
    case covered =>
      rw [countP_labels]
      exact LabelCount.count_covered c.rules c.records
    case conflicts => exact LabelCount.count_conflicts c.rules c.records
    case conflicts_le => exact c.conflicts_le_covered_statistics
  · intro formula most now
    rw [sum_transpiled_statistics]
    exact (OutcomeCount.transpiled_count c.records).symm

end LabeledCorpus

end CorpusAudit
