import CorpusAudit.Label.Basic
import CorpusAudit.Proofs.Tally

/-!
# Statistics of labels as numbers of records

The number of records of a tier is the number of the records whose label has the tier.
Records may be counted in any order and by several workers.
-/

namespace CorpusAudit

theorem LabelCount.count_tier (rules : RuleSet) (records : List Record) (t : Tier) :
  (((tally rules).count records).tiers.get t).count
    = records.countP fun r => (rules.label r).tier = t
  := by
  apply (tally rules).count_eq_countP (f := fun n => (n.tiers.get t).count)
  · simp [tally, zero]
  · intro n r
    simp only [tally, observe, ByTier.get_of, RuleSet.label]
    by_cases h : t = (rules.firstMatch r.features).tier
    · simp [h, TierCount.observe]
    · simp [h, Ne.symm h]

theorem LabeledCorpus.ofTier_statistics (c : LabeledCorpus) (t : Tier) :
  c.statistics.ofTier t = c.records.countP fun r => (c.rules.label r).tier = t
  := LabelCount.count_tier c.rules c.records t

/-! ### Merging -/

theorem TierCount.observe_comm (n : TierCount) (transpiled transpiled' : Bool) :
  (n.observe transpiled).observe transpiled' = (n.observe transpiled').observe transpiled
  := by
  simp only [observe, Nat.add_right_comm]

namespace LabelCount

theorem merge_zero (n : LabelCount) :
  n.merge zero = n
  := by
  have htiers : ByTier.of (fun t => (n.tiers.get t).add ⟨0, 0⟩) = n.tiers := by
    apply ByTier.ext_get
    intro t
    apply ByTier.get_of
  simp only [merge, zero, ByTier.get_of, Nat.add_zero, htiers]

/-- A record may be counted before or after the counts of two groups are added. -/
theorem merge_observe (rules : RuleSet) (n n' : LabelCount) (r : Record) :
  n.merge (observe rules n' r) = observe rules (n.merge n') r
  := by
  simp only [merge, observe, Nat.add_assoc, ByTier.get_of, LabelCount.mk.injEq, true_and]
  apply ByTier.ext_get
  intro t
  simp only [ByTier.get_of]
  split
  · simp only [TierCount.add, TierCount.observe, Nat.add_assoc]
  · rfl

theorem observe_comm (rules : RuleSet) (n : LabelCount) (r r' : Record) :
  observe rules (observe rules n r) r' = observe rules (observe rules n r') r
  := by
  simp only [observe, LabelCount.mk.injEq, true_and, ByTier.get_of]
  refine ⟨Nat.add_right_comm _ _ _, Nat.add_right_comm _ _ _, ?_⟩
  apply ByTier.ext_get
  intro t
  simp only [ByTier.get_of]
  split_ifs
  · apply TierCount.observe_comm
  · rfl
  · rfl
  · rfl

/-- Labelled records may be counted by several workers, and in any order. -/
theorem isMergeable_tally (rules : RuleSet) :
  (tally rules).IsMergeable
  where
    merge_zero := merge_zero
    merge_observe := merge_observe rules
    observe_comm := observe_comm rules

end LabelCount

end CorpusAudit
