import CorpusAudit.Proofs.Suspicion.Spectra
import CorpusAudit.Suspicion.Ranking

/-!
# Rankings over records

There is a ranking exactly if some record has an outcome.  It has every feature of the
schema once, with what the counts over the records say of it, and it does not depend on
the order of the records.
-/

namespace CorpusAudit

namespace Spectrum

/-- Without outcomes there is nothing to count. -/
theorem outcomes_collect_eq_zero_iff {records : List Record} :
  (collect records).outcomes = 0 ↔ ∀ r ∈ records, r.outcome = none
  := by
  rw [outcomes, Nat.add_eq_zero_iff, totalFailed_collect, totalPassed_collect,
    List.countP_eq_zero, List.countP_eq_zero, ← forall₂_and]
  apply forall₂_congr
  intro r _
  cases r.outcome with
  | none => simp
  | some o => cases o <;> simp

theorem rank_perm (s : Spectrum) (formula : Formula) :
  (s.rank formula).Perm (Feature.all.toList.map (s.suspicion formula))
  := List.mergeSort_perm _ _

/-- A ranking has every feature of the schema. -/
theorem length_rank (s : Spectrum) (formula : Formula) :
  (s.rank formula).length = 13
  := by
  rw [(s.rank_perm formula).length_eq, List.length_map, Vector.length_toList]

/-- A ranking has every feature in one place. -/
theorem filter_rank (s : Spectrum) (formula : Formula) (f : Feature) :
  (s.rank formula).filter (·.feature = f) = [s.suspicion formula f]
  := by
  have hfeature : Feature.all.toList.filter (· = f) = [f] := by cases f <;> decide
  have hfilter : (Feature.all.toList.map (s.suspicion formula)).filter (·.feature = f)
      = (Feature.all.toList.filter (· = f)).map (s.suspicion formula) := List.filter_map
  rw [← List.perm_singleton]
  apply ((s.rank_perm formula).filter _).trans
  rw [hfilter, hfeature, List.map_singleton]

theorem find?_rank (s : Spectrum) (formula : Formula) (f : Feature) :
  (s.rank formula).find? (·.feature = f) = some (s.suspicion formula f)
  := by
  rw [← List.head?_filter, filter_rank, List.head?_singleton]

end Spectrum

variable {records records' : List Record}

theorem rankFeatures_eq_ok (formula : Formula) (h : ∃ r ∈ records, r.outcome ≠ none) :
  rankFeatures formula records = .ok ((Spectrum.collect records).rank formula)
  := by
  have houtcomes : (Spectrum.collect records).outcomes ≠ 0 := by
    obtain ⟨r, hr, houtcome⟩ := h
    intro hzero
    exact houtcome (Spectrum.outcomes_collect_eq_zero_iff.mp hzero r hr)
  rw [rankFeatures, if_neg houtcomes]

theorem rankFeatures_eq_error (formula : Formula) (h : ∀ r ∈ records, r.outcome = none) :
  rankFeatures formula records = .error (.noOutcomes records.length)
  := by
  rw [rankFeatures, if_pos (Spectrum.outcomes_collect_eq_zero_iff.mpr h)]

/-- The order of the records does not matter. -/
theorem rankFeatures_perm (formula : Formula) (h : records.Perm records') :
  rankFeatures formula records = rankFeatures formula records'
  := by
  have hcollect : Spectrum.collect records = Spectrum.collect records' :=
    Spectrum.isMergeable_tally.count_perm h
  rw [rankFeatures, rankFeatures, hcollect, h.length_eq]

end CorpusAudit
