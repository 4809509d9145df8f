import CorpusAudit.Proofs.Table
import CorpusAudit.Proofs.Tally
import CorpusAudit.Report.Basic

/-!
# The counts of a report

The counts that a report is made of are the numbers of the records of each kind, and the
counts of a category are those of its records.  All categories together come to the
counts of all records.
-/

namespace CorpusAudit

namespace PassCount

/-- How many of the given records passed and failed. -/
def ofRecords (records : List Record) : PassCount :=
  ⟨records.countP Record.isPassing, records.countP fun r => !r.isPassing⟩

/-- All records that were counted. -/
def total (c : PassCount) : Nat :=
  c.passed + c.failed

theorem ofRecords_concat (records : List Record) (r : Record) :
  ofRecords (records ++ [r]) = (ofRecords records).add (.ofRecord r)
  := by
  cases h : r.isPassing <;>
    simp [ofRecords, add, ofRecord, List.countP_append, h]

theorem total_ofRecords (records : List Record) :
  (ofRecords records).total = records.length
  := by
  have h := List.length_eq_countP_add_countP Record.isPassing (l := records)
  simpa [ofRecords, total] using h.symm

theorem add_assoc (a b c : PassCount) :
  (a.add b).add c = a.add (b.add c)
  := by
  simp only [add, Nat.add_assoc]

theorem add_right_comm (a b c : PassCount) :
  (a.add b).add c = (a.add c).add b
  := by
  simp only [add, Nat.add_right_comm]

theorem zero_add (a : PassCount) :
  add ⟨0, 0⟩ a = a
  := by
  simp only [add, Nat.zero_add]

theorem total_add (a b : PassCount) :
  (a.add b).total = a.total + b.total
  := by
  simp only [total, add]
  omega

end PassCount

namespace OutcomeCount

/-- The records that passed and failed. -/
theorem outcomes_count (records : List Record) :
  (tally.count records).outcomes = .ofRecords records
  := by
  induction records using List.reverseRecOn with
  | nil => rfl
  | append_singleton records r ih =>
    rw [Tally.count_concat, PassCount.ofRecords_concat, ← ih]
    rfl

theorem undetermined_count (records : List Record) :
  (tally.count records).undetermined = records.countP fun r => r.outcome = none
  := by
  apply tally.count_eq_countP rfl
  intro n r
  simp [tally, observe]

theorem transpiled_count (records : List Record) :
  (tally.count records).transpiled = records.countP fun r => r.transpiled
  := by
  apply tally.count_eq_countP rfl
  intro n r
  rfl

/-- A category is there if it has records, with the counts of these records. -/
theorem find?_byCategory_count (records : List Record) (category : String) :
  (tally.count records).byCategory.find? category
    = if records.any (·.category = category) then
        some (.ofRecords (records.filter (·.category = category)))
      else none
  := by
  induction records using List.reverseRecOn with
  | nil => rfl
  | append_singleton records r ih =>
    rw [Tally.count_concat]
    show ((tally.count records).byCategory.alter r.category _).find? category = _
    by_cases h : r.category = category
    · subst h
      -- without records of the category its counts are zero
      have hbefore : ((tally.count records).byCategory.find? r.category).getD ⟨0, 0⟩
          = .ofRecords (records.filter (·.category = r.category)) := by
        rw [ih]
        split
        · rfl
        · next hany =>
          have hnil : records.filter (·.category = r.category) = [] := by
            simpa [List.filter_eq_nil_iff] using hany
          rw [hnil]
          rfl
      rw [Table.find?_alter_self, hbefore, ← PassCount.ofRecords_concat]
      simp [List.filter_append]
    · rw [Table.find?_alter_ne _ _ (Ne.symm h), ih]
      simp [List.filter_append, h]

/-- What the counts of all categories come to is what the counts of all records come to. -/
theorem sum_byCategory {size : PassCount → Nat} (hzero : size ⟨0, 0⟩ = 0)
    (hadd : ∀ c d, size (c.add d) = size c + size d) (records : List Record) :
  ((tally.count records).byCategory.values.map size).sum = size (.ofRecords records)
  := by
  induction records using List.reverseRecOn with
  | nil => exact hzero.symm
  | append_singleton records r ih =>
    rw [Tally.count_concat, PassCount.ofRecords_concat, hadd, ← ih]
    apply Table.sum_values_alter
    intro c
    rw [hadd]
    cases c with
    | none => rw [Option.getD_none, hzero, Option.map_none, Option.getD_none]
    | some c => rw [Option.getD_some, Option.map_some, Option.getD_some]

/-- A record may be counted before or after the counts of two groups are added. -/
theorem merge_observe (n n' : OutcomeCount) (r : Record) :
  n.merge (n'.observe r) = (n.merge n').observe r
  := by
  have hcategories : n.byCategory.merge PassCount.add (n'.byCategory.alter r.category
        fun c => (c.getD ⟨0, 0⟩).add (.ofRecord r))
      = (n.byCategory.merge PassCount.add n'.byCategory).alter r.category
        fun c => (c.getD ⟨0, 0⟩).add (.ofRecord r) := by
    apply Table.merge_alter
    · intro c
      simp only [Option.getD_none, Option.getD_some, PassCount.zero_add]
    · intro c c'
      simp only [Option.getD_some, PassCount.add_assoc]
  simp only [merge, observe, hcategories, PassCount.add_assoc, Nat.add_assoc]

theorem observe_comm (n : OutcomeCount) (r r' : Record) :
  (n.observe r).observe r' = (n.observe r').observe r
  := by
  have hcategories := Table.alter_comm
    (f := fun c => (c.getD ⟨0, 0⟩).add (PassCount.ofRecord r))
    (g := fun c => (c.getD ⟨0, 0⟩).add (PassCount.ofRecord r'))
    (fun _ => PassCount.add_right_comm _ _ _) n.byCategory r.category r'.category
  simp only [observe, hcategories, OutcomeCount.mk.injEq, and_true]
  exact ⟨PassCount.add_right_comm _ _ _, Nat.add_right_comm _ _ _, Nat.add_right_comm _ _ _⟩

/-- The outcomes of records may be counted by several workers, and in any order. -/
theorem isMergeable_tally :
  tally.IsMergeable
  where
    merge_zero _ := rfl
    merge_observe := merge_observe
    observe_comm := observe_comm

end OutcomeCount

end CorpusAudit
