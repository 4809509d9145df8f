import Mathlib

/-!
# Rankings

Items are ranked by what they weigh, the heaviest first, and by their names where they weigh
the same.  Sorting ranks items with different names (`pairwise_outranks_mergeSort`), and the
first of a ranking outrank all that are passed over (`passedOver_take`).
-/

namespace CorpusAudit

variable {α κ : Type} [LinearOrder κ] (weight : α → κ) (name : α → String)

/-- An item weighs more than another, or the same and comes first by its name. -/
def Outranks (a b : α) : Prop :=
  weight b < weight a ∨ weight a = weight b ∧ name a < name b

/-- Sorting ranks items with different names. -/
theorem pairwise_outranks_mergeSort {le : α → α → Bool}
    (hle : ∀ a b, le a b = true
      ↔ weight b < weight a ∨ weight a = weight b ∧ name a ≤ name b)
    {items : List α} (h : (items.map name).Nodup) :
  (items.mergeSort le).Pairwise (Outranks weight name)
  := by
  have hsorted : (items.mergeSort le).Pairwise fun a b => le a b = true := by
    apply List.pairwise_mergeSort
    · intro a b c hab hbc
      rw [hle] at hab hbc ⊢
      grind
    · intro a b
      rw [Bool.or_eq_true, hle, hle]
      grind
  have hnames : (items.mergeSort le).Pairwise fun a b => name a ≠ name b := by
    rw [← List.pairwise_map]
    exact ((List.mergeSort_perm items le).map name).nodup_iff.mpr h
  apply hsorted.imp₂ _ hnames
  intro a b hab hne
  exact ((hle a b).mp hab).imp_right fun htie => ⟨htie.1, lt_of_le_of_ne htie.2 hne⟩

/-- An item is passed over only where as many as may be are listed before it. -/
theorem passedOver_take {R : α → α → Prop} {items : List α} (h : items.Pairwise R) {k : Nat}
    {a : α} (ha : a ∈ items) (hpassed : a ∉ items.take k) :
  (items.take k).length = k ∧ ∀ b ∈ items.take k, R b a
  := by
  have hlater : a ∈ items.drop k := by
    rw [← List.take_append_drop k items, List.mem_append] at ha
    exact ha.resolve_left hpassed
  constructor
  · have hlength := List.length_pos_of_mem hlater
    rw [List.length_drop] at hlength
    rw [List.length_take]
    omega
  · rw [← List.take_append_drop k items, List.pairwise_append] at h
    exact fun b hb => h.2.2 b hb a hlater

end CorpusAudit
