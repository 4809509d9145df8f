import CorpusAudit.Gate.Snapshot
import CorpusAudit.Proofs.Report.Aggregation

/-!
# Categories under a policy

A report on a corpus says of every category that has records whether it passes, as its records
decide under the policy, and it still says so after it was read back.  Since a report counts
the records of a category in 64 bits, there must not be more of them.
-/

namespace CorpusAudit

/-- Whether the records of a category let it pass. -/
def PassPolicy.Passes : PassPolicy → List Record → Prop
  | .any, records => ∃ r ∈ records, r.isPassing = true
  | .all, records => ∀ r ∈ records, r.isPassing = true

theorem PassPolicy.status_eq_some_iff (policy : PassPolicy) (records : List Record)
    (passes : Bool) :
  policy.status (PassCount.ofRecords records).passed records.length = some passes
    ↔ records ≠ [] ∧ (passes = true ↔ policy.Passes records)
  := by
  rw [status.eq_def]
  split
  · next hnone =>
    have hnil : records = [] := List.eq_nil_of_length_eq_zero hnone
    simp [hnil]
  · next hsome =>
    have hnil : records ≠ [] := fun h => hsome (by simp [h])
    cases policy with
    | any =>
      have hpos : 0 < (PassCount.ofRecords records).passed ↔ PassPolicy.any.Passes records :=
        List.countP_pos_iff
      simp only [Option.some.injEq, ← hpos, hnil, ne_eq, not_false_eq_true, true_and]
      cases passes <;> simp
    | all =>
      have hall : (PassCount.ofRecords records).passed = records.length
          ↔ PassPolicy.all.Passes records :=
        List.countP_eq_length
      simp only [Option.some.injEq, ← hall, hnil, ne_eq, not_false_eq_true, true_and]
      cases passes <;> simp

/-- Reading a report back changes none of the counts that decide which categories pass. -/
theorem Snapshot.ofReport_reread (policy : PassPolicy) (r : Report) :
  ofReport policy r.reread = ofReport policy r
  := by
  rw [ofReport, ofReport, Snapshot.mk.injEq]
  refine ⟨rfl, Table.ext fun category => ?_⟩
  have hreread : r.reread.byCategory.find? category
      = (r.byCategory.find? category).map CategoryResult.reread :=
    Table.find?_map _ _ _
  rw [Table.find?_filterMap, Table.find?_filterMap, hreread]
  cases r.byCategory.find? category <;> rfl

namespace Snapshot

variable {formula : Formula} {most : Nat} {c : LabeledCorpus} {now : Time.Instant}

/-- What a report on a corpus says of a category. -/
theorem find?_ofReport_aggregate (h : c.records.length < UInt64.size) (policy : PassPolicy)
    (category : String) (passes : Bool) :
  (ofReport policy (Report.aggregate formula most c now)).entries.find? category = some passes
    ↔ Report.categoryRecords c category ≠ []
      ∧ (passes = true ↔ policy.Passes (Report.categoryRecords c category))
  := by
  rw [ofReport, Table.find?_filterMap, Report.find?_byCategory_aggregate]
  split
  · next hsome =>
    have hfew := Report.total_categoryRecords_lt h category
    have hstatus := policy.status_eq_some_iff (Report.categoryRecords c category) passes
    rw [← PassCount.total_ofRecords, PassCount.total, ← CategoryResult.total_ofCounts hfew]
      at hstatus
    exact hstatus
  · next hnone => simp [← Report.any_category_iff, hnone]

/-- A report on a corpus says something of the categories that have records. -/
theorem isSome_find?_ofReport_aggregate (h : c.records.length < UInt64.size) (policy : PassPolicy)
    (category : String) :
  ((ofReport policy (Report.aggregate formula most c now)).entries.find? category).isSome = true
    ↔ Report.categoryRecords c category ≠ []
  := by
  rw [Option.isSome_iff_exists]
  constructor
  · rintro ⟨passes, hpasses⟩
    exact ((find?_ofReport_aggregate h _ _ _).mp hpasses).1
  · intro hne
    classical
    exact ⟨decide (policy.Passes (Report.categoryRecords c category)),
      (find?_ofReport_aggregate h _ _ _).mpr ⟨hne, decide_eq_true_iff⟩⟩

end Snapshot

end CorpusAudit
