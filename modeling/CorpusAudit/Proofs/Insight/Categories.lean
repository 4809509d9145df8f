import CorpusAudit.Insight.Basic
import CorpusAudit.Proofs.Table

/-!
# Categories without success

The categories without success are those that have records of which none passes, each with
all of its records.  Together they have the records of these categories, so that what is
counted over them is counted over the corpus.
-/

namespace CorpusAudit.InsightReport

variable {records : List Record} {category : String}

/-- The records of a category. -/
def members (records : List Record) (category : String) : List Record :=
  records.filter (·.category = category)

theorem mem_members {r : Record} :
  r ∈ members records category ↔ r ∈ records ∧ r.category = category
  := by
  simp [members]

/-- A category has records, and none of them passes. -/
def IsWithoutSuccess (records : List Record) (category : String) : Prop :=
  members records category ≠ [] ∧ ∀ r ∈ members records category, r.isPassing = false

/-- The names of the categories without success, in ascending order. -/
def failing (records : List Record) : List String :=
  (withoutSuccess records).map (·.1)

theorem mem_withoutSuccess {e : String × List Record} :
  e ∈ withoutSuccess records ↔ e.2 = members records e.1 ∧ IsWithoutSuccess records e.1
  := by
  rw [withoutSuccess, List.mem_filter, Table.mem_entries_iff, Table.find?_groupBy, ← members]
  split
  · next hnil => simp [IsWithoutSuccess, hnil]
  · next hne =>
    rw [Option.some.injEq, eq_comm]
    apply and_congr_right
    intro he
    simp [IsWithoutSuccess, hne, he]

theorem mem_failing :
  category ∈ failing records ↔ IsWithoutSuccess records category
  := by
  simp [failing, mem_withoutSuccess]

theorem ascending_failing (records : List Record) :
  (failing records).Pairwise (· < ·)
  := by
  rw [failing, List.pairwise_map]
  exact (Table.groupBy Record.category records).ascending.filter _

theorem nodup_failing (records : List Record) :
  (failing records).Nodup
  := (ascending_failing records).imp fun h => ne_of_lt h

/-- Each category without success is there with its records. -/
theorem withoutSuccess_eq (records : List Record) :
  withoutSuccess records
    = (failing records).map fun category => (category, members records category)
  := by
  have hentry : ∀ e ∈ withoutSuccess records, e = (e.1, members records e.1) := by
    intro e he
    rw [← (mem_withoutSuccess.mp he).1]
  rw [failing, List.map_map]
  calc withoutSuccess records
    _ = (withoutSuccess records).map id := (List.map_id _).symm
    _ = (withoutSuccess records).map fun e => (e.1, members records e.1) :=
      List.map_congr_left hentry

/-! ### Records of several categories -/

/-- The records of different categories, category by category, are all records in them. -/
theorem perm_flatMap_members {categories : List String} (h : categories.Nodup)
    (records : List Record) :
  (categories.flatMap (members records)).Perm
    (records.filter fun r => r.category ∈ categories)
  := by
  induction categories with
  | nil => simp
  | cons c categories ih =>
    obtain ⟨hc, hcategories⟩ := List.nodup_cons.mp h
    -- the records in the categories are those of the first one and those of the others
    have hfirst : (records.filter fun r => r.category ∈ c :: categories).filter (·.category = c)
        = members records c := by
      rw [List.filter_filter, members]
      apply List.filter_congr
      intro r _
      simp +contextual
    have hothers : (records.filter fun r => r.category ∈ c :: categories).filter
          (fun r => !decide (r.category = c))
        = records.filter fun r => r.category ∈ categories := by
      rw [List.filter_filter]
      apply List.filter_congr
      intro r _
      by_cases hr : r.category = c <;> simp [hr, hc]
    rw [List.flatMap_cons, ← hfirst]
    apply ((ih hcategories).append_left _).trans
    rw [← hothers]
    apply List.filter_append_perm

/-- The records of the categories without success. -/
theorem perm_flatMap_withoutSuccess (records : List Record) :
  ((withoutSuccess records).flatMap (·.2)).Perm
    (records.filter fun r => r.category ∈ failing records)
  := by
  have hmembers : (withoutSuccess records).flatMap (·.2)
      = (failing records).flatMap (members records) := by
    rw [withoutSuccess_eq, List.flatMap_map]
  rw [hmembers]
  exact perm_flatMap_members (nodup_failing records) records

/-! ### Reordered records -/

variable {records' : List Record}

theorem members_perm (h : records.Perm records') (category : String) :
  (members records category).Perm (members records' category)
  := h.filter _

theorem isWithoutSuccess_perm (h : records.Perm records') :
  IsWithoutSuccess records category ↔ IsWithoutSuccess records' category
  := by
  have hmembers := members_perm h category
  rw [IsWithoutSuccess, IsWithoutSuccess, ne_eq, ne_eq, ← List.length_eq_zero_iff,
    hmembers.length_eq, List.length_eq_zero_iff]
  simp only [hmembers.mem_iff]

/-- The order of the records does not matter. -/
theorem failing_perm (h : records.Perm records') :
  failing records = failing records'
  := by
  have hsame : (failing records).Perm (failing records') := by
    rw [List.perm_ext_iff_of_nodup (nodup_failing records) (nodup_failing records')]
    intro category
    rw [mem_failing, mem_failing, isWithoutSuccess_perm h]
  apply hsame.eq_of_pairwise _ (ascending_failing records) (ascending_failing records')
  intro a b _ _ hab hba
  exact absurd hba (lt_asymm hab)

end CorpusAudit.InsightReport
