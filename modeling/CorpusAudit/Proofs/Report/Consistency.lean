import CorpusAudit.Proofs.Report.Aggregation
import CorpusAudit.Proofs.Suspicion.Rankings

/-!
# Reports agree with their corpora

All counts of a report on a labelled corpus are numbers of its records: altogether, by
category and by tier.  The parts come to the whole, the features that are listed are the
first of the ranking, and where there is nothing to grade nothing is advised
(`Report.describes_aggregate`).
-/

namespace CorpusAudit

theorem passRate?_eq_none_iff {passed total : Nat} :
  passRate? passed total = none ↔ total = 0
  := by
  rw [passRate?]
  split <;> simp_all

namespace Report

/-- A report says of a labelled corpus what its records say, listing at most `most` features
ranked by a formula. -/
structure Describes (r : Report) (formula : Formula) (most : Nat) (c : LabeledCorpus) :
    Prop where
  total : r.total = c.records.length
  passed : r.passed = c.records.countP Record.isPassing
  outcomes : r.passed + r.failed = r.total
  undetermined : r.undetermined = c.records.countP fun x => x.outcome = none
  undetermined_le : r.undetermined ≤ r.failed
  transpiled : r.transpiled = c.records.countP fun x => x.transpiled
  categories : ∀ category, category ∈ r.byCategory.keys ↔ ∃ x ∈ c.records, x.category = category
  results : ∀ e ∈ r.byCategory.entries,
    e.2.passed = (c.records.countP fun x => x.category = e.1 && x.isPassing)
      ∧ e.2.failed = (c.records.countP fun x => x.category = e.1 && !x.isPassing)
      ∧ e.2.grade = .ofCounts e.2.passed (e.2.passed + e.2.failed)
  totals : c.records.length < UInt64.size → ∀ n ∈ r.byCategory.values, n.total = n.passed + n.failed
  sum_passed : (r.byCategory.values.map CategoryResult.passed).sum = r.passed
  sum_failed : (r.byCategory.values.map CategoryResult.failed).sum = r.failed
  sum_total : (r.byCategory.values.map fun n => n.passed + n.failed).sum = r.total
  risks : ∀ t, r.risks.get t = some (c.records.countP fun x => (c.rules.label x).tier = t)
  sum_risks : (Tier.all.map r.ofTier).sum = r.total
  /-- If some record has an outcome, there is a ranking, and its first features are listed. -/
  ranked : (∃ x ∈ c.records, x.outcome ≠ none) → ∃ ranking,
    rankFeatures formula c.records = .ok ranking
      ∧ r.suspicious = ranking.take (min most 13) ∧ r.suspicious.length = min most 13
  unranked : (∀ x ∈ c.records, x.outcome = none) → r.suspicious = []
  grade : r.grade = .ofCounts r.passed r.total
  grade_eq_notApplicable : r.grade = .notApplicable ↔ r.total = 0
  passRate_eq_none : r.passRate = none ↔ r.total = 0
  recommendations : r.total = 0 → r.recommendations = []
  sound : r.faultOf? = none

variable {formula : Formula} {most : Nat} {c : LabeledCorpus} {now : Time.Instant}

/-! ### Records -/

theorem passed_aggregate :
  (aggregate formula most c now).passed = c.records.countP Record.isPassing
  := congrArg PassCount.passed (OutcomeCount.outcomes_count c.records)

theorem failed_aggregate :
  (aggregate formula most c now).failed = c.records.countP fun x => !x.isPassing
  := congrArg PassCount.failed (OutcomeCount.outcomes_count c.records)

/-- A record without an outcome does not pass. -/
theorem undetermined_le_failed_aggregate :
  (aggregate formula most c now).undetermined ≤ (aggregate formula most c now).failed
  := by
  rw [failed_aggregate]
  apply le_of_eq_of_le (OutcomeCount.undetermined_count c.records)
  apply List.countP_mono_left
  intro x _ hnone
  simp_all [Record.isPassing]

/-! ### Categories -/

theorem mem_keys_byCategory_aggregate (category : String) :
  category ∈ (aggregate formula most c now).byCategory.keys
    ↔ ∃ x ∈ c.records, x.category = category
  := by
  rw [← Table.isSome_find?, find?_byCategory_aggregate]
  split <;> simp_all

theorem results_aggregate {e : String × CategoryResult}
    (h : e ∈ (aggregate formula most c now).byCategory.entries) :
  e.2.passed = (c.records.countP fun x => x.category = e.1 && x.isPassing)
    ∧ e.2.failed = (c.records.countP fun x => x.category = e.1 && !x.isPassing)
    ∧ e.2.grade = .ofCounts e.2.passed (e.2.passed + e.2.failed)
  := by
  have hcounts (p : Record → Bool) : (categoryRecords c e.1).countP p
      = c.records.countP fun x => x.category = e.1 && p x := by
    rw [categoryRecords, List.countP_filter]
    simp only [Bool.and_comm]
  rw [(of_mem_byCategory_aggregate h).2]
  exact ⟨hcounts _, hcounts _, rfl⟩

/-- The total of a category is its number of records, if they can be counted in 64 bits. -/
theorem totals_aggregate (hfew : c.records.length < UInt64.size) {n : CategoryResult}
    (h : n ∈ (aggregate formula most c now).byCategory.values) :
  n.total = n.passed + n.failed
  := by
  obtain ⟨e, he, rfl⟩ := List.mem_map.mp h
  rw [(of_mem_byCategory_aggregate he).2]
  exact CategoryResult.total_ofCounts (total_categoryRecords_lt hfew e.1)

theorem sum_passed_aggregate :
  ((aggregate formula most c now).byCategory.values.map CategoryResult.passed).sum
    = (aggregate formula most c now).passed
  := by
  rw [sum_byCategory_aggregate PassCount.passed (fun _ => rfl) rfl fun _ _ => rfl]
  exact passed_aggregate.symm

/-! ### Tiers -/

/-- Every record is of one tier. -/
theorem sum_countP_tier (tier : Record → Tier) (records : List Record) :
  (Tier.all.map fun t => records.countP fun x => tier x = t).sum = records.length
  := by
  induction records with
  | nil => rfl
  | cons r records ih =>
    simp only [Tier.all, List.map_cons, List.map_nil, List.sum_cons, List.sum_nil,
      List.countP_cons, List.length_cons] at ih ⊢
    cases tier r <;> simp <;> omega

theorem risks_aggregate (t : Tier) :
  (aggregate formula most c now).risks.get t
    = some (c.records.countP fun x => (c.rules.label x).tier = t)
  := by
  show (ByTier.of _).get t = _
  rw [ByTier.get_of, c.ofTier_statistics]

theorem sum_risks_aggregate :
  (Tier.all.map (aggregate formula most c now).ofTier).sum
    = (aggregate formula most c now).total
  := by
  have htier : (aggregate formula most c now).ofTier
      = fun t => c.records.countP fun x => (c.rules.label x).tier = t := by
    funext t
    rw [ofTier, risks_aggregate, Option.getD_some]
  rw [htier, total_aggregate, sum_countP_tier fun x => (c.rules.label x).tier]

/-! ### Features -/

theorem ranked_aggregate (h : ∃ x ∈ c.records, x.outcome ≠ none) :
  ∃ ranking, rankFeatures formula c.records = .ok ranking
    ∧ (aggregate formula most c now).suspicious = ranking.take (min most 13)
    ∧ (aggregate formula most c now).suspicious.length = min most 13
  := by
  have hranking := rankFeatures_eq_ok formula h
  have hlength := (Spectrum.collect c.records).length_rank formula
  have htake : (aggregate formula most c now).suspicious
      = ((Spectrum.collect c.records).rank formula).take (min most 13) := by
    show mostSuspicious formula most c.records = _
    rw [mostSuspicious, hranking, ← hlength, ← List.take_eq_take_min]
  refine ⟨_, hranking, htake, ?_⟩
  rw [htake, List.length_take, hlength]
  omega

theorem unranked_aggregate (h : ∀ x ∈ c.records, x.outcome = none) :
  (aggregate formula most c now).suspicious = []
  := by
  show mostSuspicious formula most c.records = _
  rw [mostSuspicious, rankFeatures_eq_error formula h]

/-! ### The whole report -/

/-- The report on a labelled corpus agrees with it. -/
theorem describes_aggregate (formula : Formula) (most : Nat) (c : LabeledCorpus)
    (now : Time.Instant) :
  (aggregate formula most c now).Describes formula most c
  where
    total := total_aggregate
    passed := passed_aggregate
    outcomes := rfl
    undetermined := OutcomeCount.undetermined_count c.records
    undetermined_le := undetermined_le_failed_aggregate
    transpiled := OutcomeCount.transpiled_count c.records
    categories := mem_keys_byCategory_aggregate
    results _ he := results_aggregate he
    totals hfew _ hn := totals_aggregate hfew hn
    sum_passed := sum_passed_aggregate
    sum_failed := by
      rw [sum_byCategory_aggregate PassCount.failed (fun _ => rfl) rfl fun _ _ => rfl]
      exact failed_aggregate.symm
    sum_total := sum_total_aggregate
    risks := risks_aggregate
    sum_risks := sum_risks_aggregate
    ranked := ranked_aggregate
    unranked := unranked_aggregate
    grade := rfl
    grade_eq_notApplicable := Grade.ofCounts_eq_notApplicable_iff
    passRate_eq_none := passRate?_eq_none_iff
    recommendations h := if_pos h
    sound := faultOf?_aggregate

end Report

end CorpusAudit
