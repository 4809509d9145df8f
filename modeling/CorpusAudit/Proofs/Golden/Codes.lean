import CorpusAudit.Golden.ErrorCode
import CorpusAudit.Proofs.Table

/-!
# Error codes as numbers of occurrences

The summary of error codes is made of two numbers for each code, that of its occurrences
and that of the records that have it, in whatever order the records come.
-/

namespace CorpusAudit

namespace Record

theorem mem_distinctCodes {r : Record} {code : String} :
  code ∈ r.distinctCodes ↔ code ∈ r.errorCodes
  := by
  rw [distinctCodes, Table.keys, Table.mem_keys_ofList, List.map_map]
  simp

theorem nodup_distinctCodes (r : Record) :
  r.distinctCodes.Nodup
  := by
  apply Table.nodup_keys

end Record

namespace CodeCount

/-- Counting occurrences of a code leaves alone in how many records it is. -/
theorem iterate_occurrence (n : Option (Nat × Nat)) (k : Nat) :
  (fun n : Option (Nat × Nat) => some ((n.getD (0, 0)).1 + 1, (n.getD (0, 0)).2))^[k + 1] n
    = some ((n.getD (0, 0)).1 + (k + 1), (n.getD (0, 0)).2)
  := by
  induction k with
  | zero => rfl
  | succ k ih =>
    rw [Function.iterate_succ_apply', ih]
    rfl

/-- How often a code occurs is counted apart from the records that have it. -/
theorem find?_occurrences (counts : Table (Nat × Nat)) {codes : List String} {code : String}
    (h : code ∈ codes) :
  (codes.foldl (fun t c => t.alter c fun n =>
      let (count, records) := n.getD (0, 0)
      (count + 1, records)) counts).find? code
    = some (((counts.find? code).getD (0, 0)).1 + codes.count code,
        ((counts.find? code).getD (0, 0)).2)
  := by
  obtain ⟨k, hk⟩ := Nat.exists_eq_add_one_of_ne_zero (List.count_pos_iff.mpr h).ne'
  rw [Table.find?_foldl_alter_keys, hk]
  exact iterate_occurrence (counts.find? code) k

theorem find?_observe (counts : Table (Nat × Nat)) (r : Record) (code : String) :
  (observe counts r).find? code
    = if code ∈ r.errorCodes then
        some (((counts.find? code).getD (0, 0)).1 + r.errorCodes.count code,
          ((counts.find? code).getD (0, 0)).2 + 1)
      else counts.find? code
  := by
  rw [observe, Table.find?_foldl_alter_keys]
  split
  · next hcode =>
    rw [List.count_eq_one_of_mem r.nodup_distinctCodes (Record.mem_distinctCodes.mpr hcode),
      Function.iterate_one, find?_occurrences counts hcode]
    rfl
  · next hcode =>
    rw [List.count_eq_zero_of_not_mem fun h => hcode (Record.mem_distinctCodes.mp h),
      Table.find?_foldl_alter_keys, List.count_eq_zero_of_not_mem hcode]
    rfl

/-- The numbers of occurrences of a code and of records that have it. -/
theorem find?_counts (records : List Record) (code : String) :
  (records.foldl observe Table.empty).find? code
    = if ∃ r ∈ records, code ∈ r.errorCodes then
        some ((records.flatMap Record.errorCodes).count code,
          records.countP fun r => code ∈ r.errorCodes)
      else none
  := by
  induction records using List.reverseRecOn with
  | nil => rfl
  | append_singleton records r ih =>
    -- a code that no record has was counted zero times
    have hbefore : ((records.foldl observe Table.empty).find? code).getD (0, 0)
        = ((records.flatMap Record.errorCodes).count code,
          records.countP fun r => code ∈ r.errorCodes) := by
      rw [ih]
      split
      · rfl
      · next hnone =>
        have hflat : code ∉ records.flatMap Record.errorCodes := by
          rw [List.mem_flatMap]
          exact hnone
        have hrecords : (records.countP fun r => code ∈ r.errorCodes) = 0 := by
          simpa [List.countP_eq_zero] using hnone
        rw [List.count_eq_zero_of_not_mem hflat, hrecords, Option.getD_none]
    rw [List.foldl_append, List.foldl_cons, List.foldl_nil, find?_observe]
    split
    · next hcode =>
      have hsome : ∃ s ∈ records ++ [r], code ∈ s.errorCodes := ⟨r, by simp, hcode⟩
      simp only [hbefore, if_pos hsome, List.flatMap_append, List.flatMap_singleton,
        List.count_append, List.countP_append, List.countP_singleton, hcode, decide_true, if_true]
    · next hcode =>
      rw [ih]
      simp [or_and_right, exists_or, hcode, List.count_eq_zero_of_not_mem hcode]

/-- The order of the records does not matter. -/
theorem summarize_perm {records records' : List Record} (h : records.Perm records') :
  summarize records = summarize records'
  := by
  have hcounts : records.foldl observe Table.empty = records'.foldl observe Table.empty := by
    apply Table.ext
    intro code
    have hoccurrences : (records.flatMap Record.errorCodes).Perm
        (records'.flatMap Record.errorCodes) := h.flatMap_right _
    simp only [find?_counts, h.mem_iff, hoccurrences.count_eq, h.countP_eq]
  simp only [summarize, hcounts]

end CodeCount

end CorpusAudit
