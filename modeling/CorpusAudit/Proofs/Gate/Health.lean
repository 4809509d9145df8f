import CorpusAudit.Proofs.Gate.Comparing
import CorpusAudit.Proofs.Gate.Policies

/-!
# Records and categories

Two corpora of the same programs can be compared record by record or category by
category.  If no record has ceased to pass, then no category has, whatever the policy, and
no grade has become worse (`Report.keeps_of_records`).  Whether a category passes is seen
from the records that belong together; that its grade is kept is a matter of counting
them.
-/

namespace CorpusAudit

/-! ### Records of the same programs -/

/-- Two lists have records of the same programs, every program once in each list and in
the same category. -/
structure SamePrograms (before after : List Record) : Prop where
  nodup_before : (before.map Record.id).Nodup
  nodup_after : (after.map Record.id).Nodup
  ids : ∀ id, id ∈ before.map Record.id ↔ id ∈ after.map Record.id
  category : ∀ r ∈ before, ∀ s ∈ after, r.id = s.id → r.category = s.category

namespace SamePrograms

variable {before after : List Record}

theorem symm (h : SamePrograms before after) :
  SamePrograms after before
  where
    nodup_before := h.nodup_after
    nodup_after := h.nodup_before
    ids := fun id => (h.ids id).symm
    category := fun s hs r hr hid => (h.category r hr s hs hid.symm).symm

/-- The record of the same program in the other list. -/
theorem exists_partner (h : SamePrograms before after) {r : Record} (hr : r ∈ before) :
  ∃ s ∈ after, s.id = r.id ∧ s.category = r.category
  := by
  obtain ⟨s, hs, hid⟩ := List.mem_map.mp ((h.ids r.id).mp (List.mem_map_of_mem hr))
  exact ⟨s, hs, hid, (h.category r hr s hs hid.symm).symm⟩

end SamePrograms

/-- If each record of a kind has a partner of another kind, by its identifier, there are
at least as many of the other kind. -/
theorem countP_le_countP_of_ids {before after : List Record}
    (hnodup : (before.map Record.id).Nodup) {p q : Record → Bool}
    (hpartner : ∀ r ∈ before, p r = true → ∃ s ∈ after, s.id = r.id ∧ q s = true) :
  before.countP p ≤ after.countP q
  := by
  have hkept : ((before.filter p).map Record.id).Nodup :=
    hnodup.sublist (List.filter_sublist.map _)
  have hsubset : (before.filter p).map Record.id ⊆ (after.filter q).map Record.id := by
    intro id hid
    obtain ⟨r, hr, rfl⟩ := List.mem_map.mp hid
    obtain ⟨hr, hp⟩ := List.mem_filter.mp hr
    obtain ⟨s, hs, hid, hq⟩ := hpartner r hr hp
    exact List.mem_map.mpr ⟨s, List.mem_filter.mpr ⟨hs, hq⟩, hid⟩
  have hlength := (hkept.subperm hsubset).length_le
  rwa [List.length_map, List.length_map, ← List.countP_eq_length_filter,
    ← List.countP_eq_length_filter] at hlength

/-! ### Grades -/

theorem CategoryResult.grade_ofCounts (n : PassCount) :
  (ofCounts n.passed n.failed).grade = .ofCounts n.passed n.total
  := rfl

/-! ### Corpora of the same programs -/

/-- Two corpora of the same programs in which no record ceases to pass. -/
structure KeepsPassing (before after : List Record) : Prop where
  programs : SamePrograms before after
  passing : ∀ r ∈ before, ∀ s ∈ after, r.id = s.id → r.isPassing = true → s.isPassing = true

namespace KeepsPassing

/-- No record ceases to pass if none is told as regressed. -/
theorem of_comparison {before after : List Record} (h : SamePrograms before after)
    {c : Comparison} (hc : Comparison.of (.ofRecords before) (.ofRecords after) = .ok c)
    (hregressed : c.regressed = []) :
  KeepsPassing before after
  := by
  refine ⟨h, ?_⟩
  intro r hr s hs hid hpasses
  have hbefore : (Snapshot.ofRecords before).entries.find? r.id = some true :=
    (Snapshot.find?_ofRecords h.nodup_before).mpr ⟨r, hr, rfl, hpasses⟩
  have hkeeps := (Comparison.regressed_eq_nil_iff hc).mp hregressed r.id hbefore
  cases hfails : s.isPassing with
  | true => rfl
  | false =>
    exact absurd ((Snapshot.find?_ofRecords h.nodup_after).mpr ⟨s, hs, hid.symm, hfails⟩) hkeeps

variable {before after : LabeledCorpus}

open Report (categoryRecords)

theorem mem_categoryRecords {c : LabeledCorpus} {category : String} {r : Record} :
  r ∈ categoryRecords c category ↔ r ∈ c.records ∧ r.category = category
  := by
  simp [categoryRecords]

/-- A category has records before exactly if it has records after. -/
theorem categoryRecords_ne_nil_iff (h : SamePrograms before.records after.records)
    (category : String) :
  categoryRecords before category ≠ [] ↔ categoryRecords after category ≠ []
  := by
  have himp {before after : LabeledCorpus} (h : SamePrograms before.records after.records)
      (hsome : categoryRecords before category ≠ []) : categoryRecords after category ≠ [] := by
    obtain ⟨r, hr⟩ := List.exists_mem_of_ne_nil _ hsome
    obtain ⟨hr, hcategory⟩ := mem_categoryRecords.mp hr
    obtain ⟨s, hs, -, hsame⟩ := h.exists_partner hr
    exact List.ne_nil_of_mem (mem_categoryRecords.mpr ⟨hs, hsame.trans hcategory⟩)
  exact ⟨himp h, himp h.symm⟩

/-- A category that passes before passes after, under either policy. -/
theorem passes (h : KeepsPassing before.records after.records) (policy : PassPolicy)
    {category : String} (hpasses : policy.Passes (categoryRecords before category)) :
  policy.Passes (categoryRecords after category)
  := by
  cases policy with
  | any =>
    obtain ⟨r, hr, hpasses⟩ := hpasses
    obtain ⟨hr, hcategory⟩ := mem_categoryRecords.mp hr
    obtain ⟨s, hs, hid, hsame⟩ := h.programs.exists_partner hr
    exact ⟨s, mem_categoryRecords.mpr ⟨hs, hsame.trans hcategory⟩,
      h.passing r hr s hs hid.symm hpasses⟩
  | all =>
    intro s hs
    obtain ⟨hs, hcategory⟩ := mem_categoryRecords.mp hs
    obtain ⟨r, hr, hid, hsame⟩ := h.programs.symm.exists_partner hs
    apply h.passing r hr s hs hid
    exact hpasses r (mem_categoryRecords.mpr ⟨hr, hsame.trans hcategory⟩)

/-- In the categories that `p` selects, at least as many records pass after. -/
theorem countP_passing_le {before after : List Record} (h : KeepsPassing before after)
    (p : String → Bool) :
  before.countP (fun r => r.isPassing && p r.category)
    ≤ after.countP fun r => r.isPassing && p r.category
  := by
  apply countP_le_countP_of_ids h.programs.nodup_before
  intro r hr hboth
  obtain ⟨hpasses, hselected⟩ := Bool.and_eq_true_iff.mp hboth
  obtain ⟨s, hs, hid, hsame⟩ := h.programs.exists_partner hr
  refine ⟨s, hs, hid, Bool.and_eq_true_iff.mpr ⟨h.passing r hr s hs hid.symm hpasses, ?_⟩⟩
  rw [hsame, hselected]

end KeepsPassing

/-- There are as many records before as after in the categories that `p` selects. -/
theorem SamePrograms.countP_eq {before after : List Record} (h : SamePrograms before after)
    (p : String → Bool) :
  before.countP (fun r => p r.category) = after.countP fun r => p r.category
  := by
  have hle {before after : List Record} (h : SamePrograms before after) :
      before.countP (fun r => p r.category) ≤ after.countP fun r => p r.category := by
    apply countP_le_countP_of_ids h.nodup_before
    intro r hr hselected
    obtain ⟨s, hs, hid, hsame⟩ := h.exists_partner hr
    exact ⟨s, hs, hid, by rw [hsame, hselected]⟩
  exact Nat.le_antisymm (hle h) (hle h.symm)

/-! ### Reports on corpora of the same programs -/

namespace Report

variable {before after : LabeledCorpus}

theorem grade_aggregate {formula : Formula} {most : Nat} {c : LabeledCorpus} {now : Time.Instant} :
  (aggregate formula most c now).grade
    = .ofCounts (PassCount.ofRecords c.records).passed c.records.length
  := by
  have houtcomes := OutcomeCount.outcomes_count c.records
  rw [← PassCount.total_ofRecords, ← houtcomes]
  rfl

/-- No category has a worse grade after, and the categories are the same. -/
theorem grades_keep (h : KeepsPassing before.records after.records)
    {formula formula' : Formula} {most most' : Nat} {now now' : Time.Instant} (category : String) :
  Option.Rel (fun r s => s.grade.rank ≤ r.grade.rank)
    ((aggregate formula most before now).byCategory.find? category)
    ((aggregate formula' most' after now').byCategory.find? category)
  := by
  have hiff := KeepsPassing.categoryRecords_ne_nil_iff h.programs category
  rw [← any_category_iff, ← any_category_iff] at hiff
  rw [find?_byCategory_aggregate, find?_byCategory_aggregate]
  by_cases hsome : before.records.any (·.category = category) = true
  · rw [if_pos hsome, if_pos (hiff.mp hsome)]
    apply Option.Rel.some
    have htotal : (PassCount.ofRecords (categoryRecords before category)).total
        = (PassCount.ofRecords (categoryRecords after category)).total := by
      rw [PassCount.total_ofRecords, PassCount.total_ofRecords, categoryRecords, categoryRecords,
        ← List.countP_eq_length_filter, ← List.countP_eq_length_filter]
      exact h.programs.countP_eq (· = category)
    have hpassed : (PassCount.ofRecords (categoryRecords before category)).passed
        ≤ (PassCount.ofRecords (categoryRecords after category)).passed := by
      simp only [PassCount.ofRecords, categoryRecords, List.countP_filter]
      exact h.countP_passing_le (· = category)
    rw [CategoryResult.grade_ofCounts, CategoryResult.grade_ofCounts, htotal]
    exact Grade.rank_ofCounts_le hpassed _
  · rw [if_neg hsome, if_neg (mt hiff.mpr hsome)]
    exact Option.Rel.none

/-- The grade of the corpus is no worse after. -/
theorem grade_keeps (h : KeepsPassing before.records after.records)
    {formula formula' : Formula} {most most' : Nat} {now now' : Time.Instant} :
  (aggregate formula' most' after now').grade.rank ≤ (aggregate formula most before now).grade.rank
  := by
  have hlength := h.programs.countP_eq fun _ => true
  have hpassed := h.countP_passing_le fun _ => true
  simp only [List.countP_true] at hlength
  simp only [Bool.and_true] at hpassed
  rw [grade_aggregate, grade_aggregate, hlength]
  exact Grade.rank_ofCounts_le hpassed _

end Report

/-- The comparison of two reports has no category that has ceased to pass, and none that is
in only one of them. -/
theorem Comparison.of_reports_keep {before after : LabeledCorpus}
    (h : KeepsPassing before.records after.records) (hfew : before.records.length < UInt64.size)
    (formula formula' : Formula) (most most' : Nat) (now now' : Time.Instant)
    (policy : PassPolicy) :
  ∃ d, Comparison.of (.ofReport policy (.aggregate formula most before now))
      (.ofReport policy (.aggregate formula' most' after now')) = .ok d
    ∧ d.regressed = [] ∧ d.noPriorData = []
  := by
  have hfew' : after.records.length < UInt64.size := by
    have hlength := h.programs.countP_eq fun _ => true
    simp only [List.countP_true] at hlength
    rwa [← hlength]
  have hlevel : (Snapshot.ofReport policy (.aggregate formula most before now)).level
      = (Snapshot.ofReport policy (.aggregate formula' most' after now')).level := rfl
  obtain ⟨d, hd, -⟩ := Comparison.of_eq_ok hlevel
  refine ⟨d, hd, (Comparison.regressed_eq_nil_iff hd).mpr ?_,
    (Comparison.noPriorData_eq_nil_iff hd).mpr ?_⟩
  · intro category hbefore hafter
    rw [Snapshot.find?_ofReport_aggregate hfew] at hbefore
    rw [Snapshot.find?_ofReport_aggregate hfew'] at hafter
    simpa using hafter.2.mpr (h.passes policy (hbefore.2.mp rfl))
  · intro category
    rw [Bool.eq_iff_iff, Snapshot.isSome_find?_ofReport_aggregate hfew,
      Snapshot.isSome_find?_ofReport_aggregate hfew']
    exact KeepsPassing.categoryRecords_ne_nil_iff h.programs category

/-- If the comparison of two corpora of the same programs has no record that has ceased to
pass, then the comparison of the reports on them has no category that has ceased to pass or
that is in only one report, under either policy, and no grade is worse after.  The comparison
reads the totals of categories, which are counted in 64 bits. -/
theorem Report.keeps_of_records {before after : LabeledCorpus}
    (h : SamePrograms before.records after.records) {c : Comparison}
    (hc : Comparison.of (.ofRecords before.records) (.ofRecords after.records) = .ok c)
    (hregressed : c.regressed = []) (formula formula' : Formula) (most most' : Nat)
    (now now' : Time.Instant) :
  let r := aggregate formula most before now
  let s := aggregate formula' most' after now'
  (before.records.length < UInt64.size →
      ∀ policy, ∃ d, Comparison.of (.ofReport policy r) (.ofReport policy s) = .ok d
        ∧ d.regressed = [] ∧ d.noPriorData = [])
    ∧ (∀ category, Option.Rel (fun a b => b.grade.rank ≤ a.grade.rank)
      (r.byCategory.find? category) (s.byCategory.find? category))
    ∧ s.grade.rank ≤ r.grade.rank
  := by
  have hkeeps := KeepsPassing.of_comparison h hc hregressed
  refine ⟨?_, ?_, ?_⟩
  · intro hfew
    exact Comparison.of_reports_keep hkeeps hfew formula formula' most most' now now'
  · exact Report.grades_keep hkeeps
  · exact Report.grade_keeps hkeeps

/-- Two programs, of which the first fails. -/
def firstTry : LabeledCorpus :=
  ⟨.ofRecords [⟨"a", "x", true, some false, none, [], .empty⟩,
    ⟨"b", "y", true, some true, none, [], .empty⟩], .default⟩

/-- The two programs in the other order, both passing. -/
def secondTry : LabeledCorpus :=
  ⟨.ofRecords [⟨"b", "y", true, some true, some true, [], .empty⟩,
    ⟨"a", "x", true, some true, none, [], .empty⟩], .default⟩

/-- The second try of the two programs has no category that has ceased to pass, and is
graded no worse. -/
theorem Report.keeps_of_records_second_try :
  let now : Time.Instant := ⟨⟨2024, 1, 1⟩, 0, 0, 0, 0⟩
  Comparison.of (.ofRecords firstTry.records) (.ofRecords secondTry.records)
      = .ok ⟨.record, ["a"], [], ["b"], [], 1⟩
    ∧ (∃ d, Comparison.of (.ofReport .all (aggregate .tarantula 5 firstTry now))
        (.ofReport .all (aggregate .ochiai 5 secondTry now)) = .ok d
      ∧ d.regressed = [] ∧ d.noPriorData = [])
    ∧ (aggregate .ochiai 5 secondTry now).grade.rank
      ≤ (aggregate .tarantula 5 firstTry now).grade.rank
  := by
  have hprograms : SamePrograms firstTry.records secondTry.records := by
    refine ⟨by decide, by decide, ?_, by decide⟩
    intro id
    exact List.Perm.mem_iff (.swap "b" "a" [])
  have hcompared : Comparison.of (.ofRecords firstTry.records) (.ofRecords secondTry.records)
      = .ok ⟨.record, ["a"], [], ["b"], [], 1⟩ := by
    decide
  have hkeeps := keeps_of_records hprograms hcompared rfl .tarantula .ochiai 5 5
    ⟨⟨2024, 1, 1⟩, 0, 0, 0, 0⟩ ⟨⟨2024, 1, 1⟩, 0, 0, 0, 0⟩
  exact ⟨hcompared, hkeeps.1 (by decide) .all, hkeeps.2.2⟩

end CorpusAudit
