import CorpusAudit.Insight.Basic
import CorpusAudit.Proofs.Ranking

/-!
# The order of insights

Insights are sorted by impact in the total order of floating-point numbers, the greatest
first, and by name where the impact is the same, so that items with different names have
one order (`IsRanked`).  Of features with the greatest score, the first one of the schema
is recommended.
-/

namespace CorpusAudit

open Decimal (totalKey)

theorem hasPrecedence_iff {x y : Float} {n m : String} :
  hasPrecedence x y n m = true ↔ totalKey y < totalKey x ∨ totalKey x = totalKey y ∧ n ≤ m
  := by
  rw [hasPrecedence, Decimal.compareDescending]
  split
  · next h => simp [compare_lt_iff_lt.mp h]
  · next h => simp [compare_eq_iff_eq.mp h]
  · next h =>
    have hlt := compare_gt_iff_gt.mp h
    simp [hlt.ne, not_lt.mpr hlt.le]

/-- Items are sorted by what they count for, in descending order, and those that count for the
same by their names. -/
def IsRanked {α : Type} (impact : α → Float) (name : α → String) (items : List α) : Prop :=
  items.Pairwise fun a b =>
    totalKey (impact b) < totalKey (impact a)
      ∨ (totalKey (impact a) = totalKey (impact b) ∧ name a < name b)

section

variable {α : Type} (impact : α → Float) (name : α → String)

/-- Items in the order of precedence. -/
def ranked (items : List α) : List α :=
  items.mergeSort fun a b => hasPrecedence (impact a) (impact b) (name a) (name b)

/-- Sorting ranks items with different names. -/
theorem isRanked_ranked {items : List α} (h : (items.map name).Nodup) :
  IsRanked impact name (ranked impact name items)
  := pairwise_outranks_mergeSort (fun a => totalKey (impact a)) name
    (fun _ _ => hasPrecedence_iff) h

end

namespace CategoryInsight

/-- A feature of a list is the first one with the greatest score. -/
def IsTop (score : Feature → Float) (fs : List Feature) (f : Feature) : Prop :=
  f ∈ fs ∧ ∀ g ∈ fs,
    totalKey (score g) < totalKey (score f)
      ∨ (totalKey (score g) = totalKey (score f) ∧ f.index ≤ g.index)

/-- Among features in schema order, the first one with the greatest score is found. -/
theorem exists_topFeature? (score : Feature → Float) {fs : List Feature}
    (hfs : fs.Pairwise fun f g => f.index < g.index) (hne : fs ≠ []) :
  ∃ f, topFeature? score fs = some f ∧ IsTop score fs f
  := by
  induction fs with
  | nil => exact absurd rfl hne
  | cons f fs ih =>
    obtain ⟨hfirst, hrest⟩ := List.pairwise_cons.mp hfs
    cases fs with
    | nil => exact ⟨f, rfl, by simp [IsTop]⟩
    | cons f' fs =>
      obtain ⟨g, hg, hmem, htop⟩ := ih hrest (List.cons_ne_nil _ _)
      rw [topFeature?, hg]
      simp only
      split
      · next hlt =>
        refine ⟨g, rfl, List.mem_cons_of_mem f hmem, ?_⟩
        intro e he
        rcases List.mem_cons.mp he with rfl | he
        · exact Or.inl hlt
        · exact htop e he
      · next hge =>
        refine ⟨f, rfl, List.mem_cons_self, ?_⟩
        intro e he
        rcases List.mem_cons.mp he with rfl | he
        · exact Or.inr ⟨rfl, le_refl _⟩
        · have hindex := (hfirst e he).le
          have hscore := htop e he
          omega

end CategoryInsight

end CorpusAudit
