import CorpusAudit.Proofs.Report.Consistency

/-!
# The grade of a corpus lies between those of its categories

The part of all records that passed is no greater than the greatest part of a category that
passed, and no smaller than the smallest.  Grades are bands of such parts, found in exact
arithmetic, so the grade of a corpus is no better than the best grade of a category and no
worse than the worst one (`Report.isBetweenCategories_aggregate`).
-/

namespace CorpusAudit

namespace Report

/-- There are records in a report and in each of its categories, graded by those that passed,
and the categories make up the whole. -/
structure IsGraded (r : Report) : Prop where
  total_pos : 0 < r.total
  grade : r.grade = .ofCounts r.passed r.total
  categories : ∀ x ∈ r.byCategory.values, 0 < x.passed + x.failed
    ∧ x.grade = .ofCounts x.passed (x.passed + x.failed)
  sum_passed : (r.byCategory.values.map CategoryResult.passed).sum = r.passed
  sum_total : (r.byCategory.values.map fun x => x.passed + x.failed).sum = r.total

namespace IsGraded

variable {r : Report} (h : r.IsGraded)

include h

theorem values_ne_nil :
  r.byCategory.values ≠ []
  := by
  intro hnil
  have hsum := h.sum_total
  rw [hnil] at hsum
  exact h.total_pos.ne hsum

theorem sum_passed_mul :
  (r.byCategory.values.map fun x => x.passed * r.total).sum = r.passed * r.total
  := by
  rw [List.sum_map_mul_right, h.sum_passed]

theorem sum_mul_total :
  (r.byCategory.values.map fun x => r.passed * (x.passed + x.failed)).sum = r.passed * r.total
  := by
  rw [List.sum_map_mul_left, h.sum_total]

/-- Some category passed at least as great a part as the whole. -/
theorem exists_better :
  ∃ x ∈ r.byCategory.values, x.grade.rank ≤ r.grade.rank
  := by
  have hsum := h.sum_mul_total.trans h.sum_passed_mul.symm
  obtain ⟨x, hx, hle⟩ := List.exists_le_of_sum_le h.values_ne_nil _ _ hsum.le
  obtain ⟨hpos, hgrade⟩ := h.categories x hx
  refine ⟨x, hx, ?_⟩
  rw [h.grade, hgrade]
  exact Grade.rank_ofCounts_le_of_mul_le h.total_pos hpos hle

/-- Some category passed at most as great a part as the whole. -/
theorem exists_worse :
  ∃ x ∈ r.byCategory.values, r.grade.rank ≤ x.grade.rank
  := by
  have hsum := h.sum_passed_mul.trans h.sum_mul_total.symm
  obtain ⟨x, hx, hle⟩ := List.exists_le_of_sum_le h.values_ne_nil _ _ hsum.le
  obtain ⟨hpos, hgrade⟩ := h.categories x hx
  refine ⟨x, hx, ?_⟩
  rw [h.grade, hgrade]
  exact Grade.rank_ofCounts_le_of_mul_le hpos h.total_pos hle

theorem meets_of_forall {least : Grade}
    (hmeets : ∀ x ∈ r.byCategory.values, x.grade.meets least = true) :
  r.meets least = true
  := by
  obtain ⟨x, hx, hworse⟩ := h.exists_worse
  refine Grade.meets_iff.mpr ⟨?_, Nat.le_trans hworse (Grade.meets_iff.mp (hmeets x hx)).2⟩
  rw [h.grade, ne_eq, Grade.ofCounts_eq_notApplicable_iff]
  exact h.total_pos.ne'

theorem exists_meets {least : Grade} (hmeets : r.meets least = true) :
  ∃ x ∈ r.byCategory.values, x.grade.meets least = true
  := by
  obtain ⟨x, hx, hbetter⟩ := h.exists_better
  obtain ⟨hpos, hgrade⟩ := h.categories x hx
  refine ⟨x, hx, Grade.meets_iff.mpr ⟨?_, Nat.le_trans hbetter (Grade.meets_iff.mp hmeets).2⟩⟩
  rw [hgrade, ne_eq, Grade.ofCounts_eq_notApplicable_iff]
  exact hpos.ne'

end IsGraded

variable {c : LabeledCorpus}

/-- A report on records is graded by them, altogether and in each category. -/
theorem isGraded_aggregate (h : c.records ≠ []) (formula : Formula) (most : Nat)
    (now : Time.Instant) :
  (aggregate formula most c now).IsGraded
  where
    total_pos := by
      rw [total_aggregate]
      exact List.length_pos_iff.mpr h
    grade := rfl
    categories := by
      intro x hx
      obtain ⟨e, he, rfl⟩ := List.mem_map.mp hx
      obtain ⟨hne, hresult⟩ := of_mem_byCategory_aggregate he
      rw [hresult]
      refine ⟨?_, rfl⟩
      show 0 < (PassCount.ofRecords (categoryRecords c e.1)).total
      rw [PassCount.total_ofRecords]
      exact List.length_pos_iff.mpr hne
    sum_passed := sum_passed_aggregate
    sum_total := sum_total_aggregate

/-- The grade of a report is no better than the best grade of a category and no worse than the
worst one; so it meets what all categories meet, and nothing that none of them meets. -/
structure IsBetweenCategories (r : Report) : Prop where
  best : ∃ x ∈ r.byCategory.values, x.grade.rank ≤ r.grade.rank
  worst : ∃ x ∈ r.byCategory.values, r.grade.rank ≤ x.grade.rank
  meets : ∀ least, (∀ x ∈ r.byCategory.values, x.grade.meets least = true) → r.meets least = true
  fails : ∀ least, (∀ x ∈ r.byCategory.values, x.grade.meets least = false) →
    r.meets least = false

theorem isBetweenCategories_aggregate (h : c.records ≠ []) (formula : Formula) (most : Nat)
    (now : Time.Instant) :
  (aggregate formula most c now).IsBetweenCategories
  := by
  have hgraded := isGraded_aggregate h formula most now
  refine ⟨hgraded.exists_better, hgraded.exists_worse, fun _ => hgraded.meets_of_forall, ?fails⟩
  case fails =>
    intro least hfails
    rw [← Bool.not_eq_true]
    intro hmeets
    obtain ⟨x, hx, hmeets⟩ := hgraded.exists_meets hmeets
    rw [hfails x hx] at hmeets
    exact Bool.false_ne_true hmeets

/-- Two programs that pass, of one category, and two of another, of which one fails. -/
def threeOfFour : LabeledCorpus :=
  ⟨.ofRecords [⟨"a", "x", true, some true, none, [], .empty⟩,
    ⟨"b", "y", true, some true, none, [], .empty⟩,
    ⟨"c", "x", true, some true, some true, [], .empty⟩,
    ⟨"d", "y", true, some true, some false, [], .empty⟩], .default⟩

/-- Categories of the best grade and of a bad one, and a grade between them. -/
theorem isBetweenCategories_threeOfFour :
  let r := aggregate .tarantula 5 threeOfFour ⟨⟨2024, 1, 1⟩, 0, 0, 0, 0⟩
  r.IsBetweenCategories
    ∧ r.byCategory.values.map CategoryResult.grade = [.a, .d]
    ∧ r.grade = .c
    ∧ r.meets .d = true
  := by
  have hbetween := isBetweenCategories_aggregate (c := threeOfFour) (by decide) .tarantula 5
    ⟨⟨2024, 1, 1⟩, 0, 0, 0, 0⟩
  have hgrades : (aggregate .tarantula 5 threeOfFour
      ⟨⟨2024, 1, 1⟩, 0, 0, 0, 0⟩).byCategory.values.map CategoryResult.grade = [.a, .d] := by
    decide +kernel
  refine ⟨hbetween, hgrades, by decide +kernel, hbetween.meets .d ?_⟩
  intro x hx
  have hgrade := List.mem_map_of_mem (f := CategoryResult.grade) hx
  rw [hgrades] at hgrade
  rcases List.mem_pair.mp hgrade with hgrade | hgrade <;> rw [hgrade] <;> rfl

end Report

end CorpusAudit
