import CorpusAudit.Proofs.Golden.Codes
import CorpusAudit.Proofs.Ranking

/-!
# The summary of error codes

A summary lists each error code of some record once, with its occurrences, which are counted
again where a record repeats the code, and the records that have it, which are not; the most
frequent code comes first (`IsHistogram`).  If records are split in two, both numbers of a
code are the sums of those in the two parts (`summarize_isHistogram`).
-/

namespace CorpusAudit.CodeCount

variable {records : List Record}

/-- How often a code occurs in records, repetitions in one record included. -/
def occurrences (records : List Record) (code : String) : Nat :=
  (records.map fun r => r.errorCodes.count code).sum

/-- How many records have a code. -/
def carriers (records : List Record) (code : String) : Nat :=
  records.countP fun r => code ∈ r.errorCodes

theorem count_flatMap_errorCodes (records : List Record) (code : String) :
  (records.flatMap Record.errorCodes).count code = occurrences records code
  := List.count_flatMap

/-- A code occurs where there is a record that has it. -/
theorem carriers_pos_iff {code : String} :
  0 < carriers records code ↔ ∃ r ∈ records, code ∈ r.errorCodes
  := by
  simp [carriers, List.countP_pos_iff]

theorem carriers_le_occurrences (records : List Record) (code : String) :
  carriers records code ≤ occurrences records code
  := by
  induction records with
  | nil => exact Nat.le_refl 0
  | cons r records ih =>
    simp only [carriers, occurrences, List.countP_cons, List.map_cons, List.sum_cons,
      decide_eq_true_eq] at ih ⊢
    split
    · next hcode =>
      have hpos : 0 < r.errorCodes.count code := List.count_pos_iff.mpr hcode
      omega
    · omega

/-! ### The entries of a summary -/

/-- The entries of a summary are those of the counts. -/
theorem mem_summarize_iff {c : CodeCount} :
  c ∈ summarize records
    ↔ 0 < c.records ∧ c.records = carriers records c.code ∧ c.count = occurrences records c.code
  := by
  have hentry : c ∈ summarize records
      ↔ (records.foldl observe Table.empty).find? c.code = some (c.count, c.records) := by
    rw [summarize, List.mem_mergeSort, List.mem_map, ← Table.mem_entries_iff
      (e := (c.code, c.count, c.records))]
    constructor
    · rintro ⟨e, he, rfl⟩
      exact he
    · intro he
      exact ⟨_, he, rfl⟩
  rw [hentry, find?_counts, count_flatMap_errorCodes, ← carriers]
  split
  · next hsome =>
    have hpos := carriers_pos_iff.mpr hsome
    rw [Option.some.injEq, Prod.mk.injEq]
    constructor
    · rintro ⟨hcount, hrecords⟩
      exact ⟨hrecords ▸ hpos, hrecords.symm, hcount.symm⟩
    · rintro ⟨-, hrecords, hcount⟩
      exact ⟨hcount.symm, hrecords.symm⟩
  · next hnone =>
    simp only [reduceCtorEq, false_iff]
    rintro ⟨hpos, hrecords, -⟩
    exact hnone (carriers_pos_iff.mp (hrecords ▸ hpos))

theorem codes_perm (records : List Record) :
  ((summarize records).map CodeCount.code).Perm (records.foldl observe Table.empty).keys
  := by
  have h := (List.mergeSort_perm ((records.foldl observe Table.empty).entries.map
    fun e => CodeCount.mk e.1 e.2.1 e.2.2) isBefore).map CodeCount.code
  rw [List.map_map] at h
  exact h

theorem nodup_codes (records : List Record) :
  ((summarize records).map CodeCount.code).Nodup
  := (codes_perm records).nodup_iff.mpr (Table.nodup_keys _)

theorem mem_codes_iff {code : String} :
  code ∈ (summarize records).map CodeCount.code ↔ ∃ r ∈ records, code ∈ r.errorCodes
  := by
  rw [← carriers_pos_iff, List.mem_map]
  constructor
  · rintro ⟨c, hc, rfl⟩
    obtain ⟨hpos, hrecords, -⟩ := mem_summarize_iff.mp hc
    exact hrecords ▸ hpos
  · intro hpos
    exact ⟨⟨code, occurrences records code, carriers records code⟩,
      mem_summarize_iff.mpr ⟨hpos, rfl, rfl⟩, rfl⟩

/-- The numbers of the listed codes make up the numbers of all errors of the records. -/
theorem sum_count (records : List Record) :
  ((summarize records).map CodeCount.count).sum
    = (records.map fun r => r.errorCodes.length).sum
  := by
  have hcounts : (summarize records).map CodeCount.count
      = ((summarize records).map CodeCount.code).map
        (records.flatMap Record.errorCodes).count := by
    rw [List.map_map]
    apply List.map_congr_left
    intro c hc
    rw [Function.comp_apply, count_flatMap_errorCodes]
    exact (mem_summarize_iff.mp hc).2.2
  have hcodes : ((summarize records).map CodeCount.code).Perm
      (records.flatMap Record.errorCodes).dedup := by
    apply (List.perm_ext_iff_of_nodup (nodup_codes records) (List.nodup_dedup _)).mpr
    intro code
    rw [mem_codes_iff, List.mem_dedup, List.mem_flatMap]
  rw [hcounts, (hcodes.map _).sum_eq, List.sum_map_count_dedup_eq_length, List.length_flatMap]

theorem pairwise_summarize (records : List Record) :
  (summarize records).Pairwise (Outranks CodeCount.count CodeCount.code)
  := by
  apply pairwise_outranks_mergeSort
  · intro a b
    simp [isBefore]
  · rw [List.map_map]
    exact Table.nodup_keys _

/-! ### Summaries as histograms -/

/-- A summary lists every code of the records once, the most frequent first, and those that are
equally frequent in the order of the codes. -/
structure IsHistogram (rs : List Record) (summary : List CodeCount) : Prop where
  distinct : (summary.map CodeCount.code).Nodup
  complete : ∀ code, code ∈ summary.map CodeCount.code ↔ ∃ r ∈ rs, code ∈ r.errorCodes
  count : ∀ c ∈ summary, c.count = occurrences rs c.code
  records : ∀ c ∈ summary, c.records = carriers rs c.code
  bounds : ∀ c ∈ summary, 1 ≤ c.records ∧ c.records ≤ c.count
  total : (summary.map CodeCount.count).sum = (rs.map fun r => r.errorCodes.length).sum
  ranked : summary.Pairwise (Outranks CodeCount.count CodeCount.code)

theorem isHistogram_summarize (records : List Record) :
  IsHistogram records (summarize records)
  where
    distinct := nodup_codes records
    complete _ := mem_codes_iff
    count _ hc := (mem_summarize_iff.mp hc).2.2
    records _ hc := (mem_summarize_iff.mp hc).2.1
    bounds c hc := by
      obtain ⟨hpos, hrecords, hcount⟩ := mem_summarize_iff.mp hc
      exact ⟨hpos, hrecords ▸ hcount ▸ carriers_le_occurrences records c.code⟩
    total := sum_count records
    ranked := pairwise_summarize records

/-- The occurrences of a code and the records that have it, as a summary tells them: none
unless the code is listed. -/
def numbers (summary : List CodeCount) (code : String) : Nat × Nat :=
  ((summary.find? (·.code = code)).map fun c => (c.count, c.records)).getD (0, 0)

theorem numbers_summarize (records : List Record) (code : String) :
  numbers (summarize records) code = (occurrences records code, carriers records code)
  := by
  rw [numbers]
  cases hfind : (summarize records).find? (·.code = code) with
  | none =>
    have hcode : ¬ 0 < carriers records code := by
      rw [carriers_pos_iff, ← mem_codes_iff, List.mem_map]
      rintro ⟨c, hc, rfl⟩
      exact List.find?_eq_none.mp hfind c hc (by simp)
    have hoccurrences : occurrences records code = 0 := by
      rw [← count_flatMap_errorCodes, List.count_eq_zero, List.mem_flatMap, ← carriers_pos_iff]
      exact hcode
    rw [hoccurrences, Nat.eq_zero_of_not_pos hcode]
    rfl
  | some c =>
    obtain rfl : c.code = code := by simpa using List.find?_some hfind
    obtain ⟨-, hrecords, hcount⟩ := mem_summarize_iff.mp (List.mem_of_find?_eq_some hfind)
    rw [Option.map_some, Option.getD_some, hrecords, hcount]

/-- A summary is a histogram of the error codes, and however the records are split in two, its
numbers are the sums of those of the two parts. -/
theorem summarize_isHistogram (records : List Record) :
  IsHistogram records (summarize records)
    ∧ ∀ left right, records.Perm (left ++ right) → ∀ code,
      numbers (summarize records) code
        = numbers (summarize left) code + numbers (summarize right) code
  := by
  refine ⟨isHistogram_summarize records, ?_⟩
  intro left right hsplit code
  have hoccurrences : occurrences records code
      = occurrences left code + occurrences right code := by
    rw [occurrences, (hsplit.map _).sum_eq, List.map_append, List.sum_append]
    rfl
  have hcarriers : carriers records code = carriers left code + carriers right code := by
    rw [carriers, hsplit.countP_eq, List.countP_append]
    rfl
  rw [numbers_summarize, numbers_summarize, numbers_summarize, hoccurrences, hcarriers]
  rfl

/-- Three records, of which the first repeats a code and the last has no error. -/
def repeatedCodes : List Record :=
  [⟨"a", "parsing", true, some false, none, ["E0308", "E0433", "E0308"], .empty⟩,
    ⟨"b", "parsing", true, some false, none, ["E0433"], .empty⟩,
    ⟨"c", "parsing", true, some true, none, [], .empty⟩]

/-- Codes that occur equally often are in alphabetical order, though more records have the
second one; one of its occurrences is in the second record, the other one in the rest. -/
theorem summarize_isHistogram_repeatedCodes :
  summarize repeatedCodes = [⟨"E0308", 2, 1⟩, ⟨"E0433", 2, 2⟩]
    ∧ IsHistogram repeatedCodes (summarize repeatedCodes)
    ∧ repeatedCodes.Perm ((repeatedCodes.drop 1).take 1
        ++ (repeatedCodes.take 1 ++ repeatedCodes.drop 2))
    ∧ numbers (summarize repeatedCodes) "E0433"
      = numbers (summarize ((repeatedCodes.drop 1).take 1)) "E0433"
        + numbers (summarize (repeatedCodes.take 1 ++ repeatedCodes.drop 2)) "E0433"
    ∧ numbers (summarize ((repeatedCodes.drop 1).take 1)) "E0433" = (1, 1)
  := by
  have hperm : repeatedCodes.Perm ((repeatedCodes.drop 1).take 1
      ++ (repeatedCodes.take 1 ++ repeatedCodes.drop 2)) := List.Perm.swap _ _ _
  obtain ⟨hhistogram, hsplit⟩ := summarize_isHistogram repeatedCodes
  refine ⟨?_, hhistogram, hperm, hsplit _ _ hperm "E0433", ?_⟩
  · cbv
  · cbv

end CorpusAudit.CodeCount
