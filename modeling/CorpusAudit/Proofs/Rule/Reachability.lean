import CorpusAudit.Proofs.Rule.Monotonicity

/-!
# Rules that are never reached

Lists of rules are refused if a rule before the last is written as a catch-all.  But there is
one more condition that everything meets: that all of no features are present.  No further
condition is like this, for a program without features meets no other
(`Condition.holds_empty_iff`).  So in the rule sets without this condition every rule but the
last leaves some features over, and the last rule is reached; with it, no later rule ever is
(`RuleSet.leavesRest_iff`).  There are such rule sets (`RuleSet.hidden_catchAll`).
-/

namespace CorpusAudit

theorem FeatureSet.isWithin_empty (v : FeatureSet) :
  empty.IsWithin v
  := by
  intro f hf
  rw [empty, has_ofPredicate] at hf
  exact absurd hf Bool.false_ne_true

/-! ### Conditions -/

namespace Condition

/-- A program without features meets the conditions that ask for no feature. -/
theorem holds_empty_iff {c : Condition} :
  c.holds .empty = true ↔ c = .always ∨ c = .all []
  := by
  cases c with
  | has f => simp [holds, FeatureSet.empty]
  | all fs => cases fs <;> simp [holds, FeatureSet.empty]
  | any fs => simp [holds, FeatureSet.empty]
  | always => simp [holds]

/-- A condition that a program without features meets is met by every program. -/
theorem holds_everywhere_iff {c : Condition} :
  (∀ v, c.holds v = true) ↔ c.holds .empty = true
  := by
  constructor
  · intro h
    apply h
  · intro h v
    exact holds_of_isWithin v.isWithin_empty h

end Condition

/-! ### Rules -/

namespace RuleSet

variable {s : RuleSet} {r : Rule}

theorem matchesFeatures_empty_iff (h : r ∈ s.rules.dropLast) :
  Rule.matchesFeatures .empty r = true ↔ r.condition = .all []
  := by
  rw [Rule.matchesFeatures, Condition.holds_empty_iff]
  exact or_iff_right (s.isPrecedence.earlier r h)

/-- A rule before the last leaves some features over if it asks for some feature. -/
theorem exists_unmatched_iff (h : r ∈ s.rules.dropLast) :
  (∃ v, Rule.matchesFeatures v r = false) ↔ r.condition ≠ .all []
  := by
  rw [ne_eq, ← matchesFeatures_empty_iff h, Rule.matchesFeatures, ← Condition.holds_everywhere_iff]
  simp [Rule.matchesFeatures]

/-- No rule behind a rule that everything meets is ever the first match. -/
theorem firstMatch_not_mem_after {before after : List Rule}
    (hrules : s.rules = before ++ r :: after) (h : r.condition = .all []) (v : FeatureSet) :
  s.firstMatch v ∉ after
  := by
  intro hafter
  have hmatch : r ∈ s.matching v := by
    simp [matching, hrules, Rule.matchesFeatures, h, Condition.holds]
  have hnodup : s.rules.Nodup := s.isPrecedence.names.of_map
  rw [hrules, List.nodup_append, List.nodup_cons] at hnodup
  obtain ⟨-, ⟨hr, -⟩, hdisjoint⟩ := hnodup
  have hbefore {q : Rule} (hq : q ∈ r :: after) : q ∉ before :=
    fun hmem => hdisjoint q hmem q hq rfl
  have hne : r ≠ s.firstMatch v := fun heq => hr (heq ▸ hafter)
  have hle := s.idxOf_firstMatch_le hmatch
  rw [hrules, List.idxOf_append_of_notMem (hbefore (List.mem_cons_of_mem r hafter)),
    List.idxOf_append_of_notMem (hbefore List.mem_cons_self), List.idxOf_cons_self,
    List.idxOf_cons_ne _ hne] at hle
  omega

theorem rules_eq (s : RuleSet) :
  s.rules = s.rules.dropLast ++ [s.fallback]
  := (List.dropLast_append_getLast s.rules_ne_nil).symm

/-- If every rule before the last asks for some feature, a program without features is left to
the last rule. -/
theorem firstMatch_empty_eq (h : ∀ r ∈ s.rules.dropLast, r.condition ≠ .all []) :
  s.firstMatch .empty = s.fallback
  := by
  have hfind := s.find?_eq_firstMatch .empty
  have hnone : s.rules.dropLast.find? (Rule.matchesFeatures .empty) = none := by
    rw [List.find?_eq_none]
    intro r hr hmatches
    exact h r hr ((matchesFeatures_empty_iff hr).mp hmatches)
  rw [rules_eq, List.find?_append, hnone, Option.none_or] at hfind
  exact List.mem_singleton.mp (List.mem_of_find?_eq_some hfind)

/-- Every rule before the last leaves some features to the rules after it. -/
def LeavesRest (rules : List Rule) : Prop :=
  ∀ r ∈ rules.dropLast, ∃ v, Rule.matchesFeatures v r = false

/-- In a list that is accepted, every rule before the last leaves some features over exactly if
none of them has the condition that all of no features are present.  It depends on this whether
the last rule is ever the first match; a rule with this condition keeps all later rules from
being the first match. -/
theorem leavesRest_iff {rules : List Rule} {s : RuleSet} (h : ofRules rules = .ok s) :
  (LeavesRest rules ↔ ∀ r ∈ rules.dropLast, r.condition ≠ .all [])
    ∧ (∀ r ∈ rules.dropLast,
      (∃ v, Rule.matchesFeatures v r = false) ↔ r.condition ≠ .all [])
    ∧ (LeavesRest rules ↔ ∃ v, s.firstMatch v = s.fallback)
    ∧ ∀ before r after, rules = before ++ r :: after → r.condition = .all [] →
      ∀ v, s.firstMatch v ∉ after
  := by
  obtain rfl : s.rules = rules := ofRules_eq_ok_iff.mp h
  have hleaves : LeavesRest s.rules ↔ ∀ r ∈ s.rules.dropLast, r.condition ≠ .all [] :=
    forall₂_congr fun r hr => exists_unmatched_iff hr
  refine ⟨hleaves, fun r hr => exists_unmatched_iff hr, ?reached, ?hidden⟩
  case reached =>
    rw [hleaves]
    constructor
    · intro hasks
      use .empty
      exact firstMatch_empty_eq hasks
    · rintro ⟨v, hv⟩ r hr hcondition
      obtain ⟨before, after, hsplit⟩ := List.append_of_mem hr
      have hrules : s.rules = before ++ r :: (after ++ [s.fallback]) := by
        rw [rules_eq, hsplit, List.append_assoc, List.cons_append]
      apply firstMatch_not_mem_after hrules hcondition v
      rw [hv]
      exact List.mem_concat_self
  case hidden =>
    intro before r after hrules hcondition v
    exact firstMatch_not_mem_after hrules hcondition v

/-- A rule that asks for a feature, one that asks for none, and the last rule. -/
def hidingRules : List Rule :=
  [⟨"asks_for_one", .high, .has .lambda⟩, ⟨"asks_for_none", .medium, .all []⟩,
    ⟨"rest", .low, .always⟩]

private theorem ofRules_hidingRules :
  ∃ s, ofRules hidingRules = .ok s
  := ⟨⟨hidingRules, by decide +kernel⟩, ofRules_eq_ok_iff.mpr rfl⟩

/-- Of three rules, the last is never the first match. -/
theorem leavesRest_iff_hidingRules :
  ∃ s, ofRules hidingRules = .ok s ∧ ¬ LeavesRest hidingRules
    ∧ (∀ v, s.firstMatch v ≠ s.fallback)
    ∧ ∀ v, s.firstMatch v ≠ ⟨"rest", .low, .always⟩
  := by
  obtain ⟨s, hs⟩ := ofRules_hidingRules
  obtain ⟨hleaves, -, hreached, hhidden⟩ := leavesRest_iff hs
  have hnot : ¬ LeavesRest hidingRules := by
    intro hrest
    exact hleaves.mp hrest ⟨"asks_for_none", .medium, .all []⟩ (by decide) rfl
  refine ⟨s, hs, hnot, ?_, ?_⟩
  · intro v hv
    exact hnot (hreached.mpr ⟨v, hv⟩)
  · intro v hv
    apply hhidden [⟨"asks_for_one", .high, .has .lambda⟩] ⟨"asks_for_none", .medium, .all []⟩
      [⟨"rest", .low, .always⟩] rfl rfl v
    rw [hv]
    exact List.mem_cons_self

/-- The same two rules are refused if the first is written as a catch-all, and accepted if it is
written as a rule that asks for all of no features; and then it is the first match of every
program. -/
theorem hidden_catchAll :
  ofRules [⟨"everything", .high, .always⟩, ⟨"rest", .low, .always⟩]
      = .error (.earlyCatchAll "everything")
    ∧ ∃ s, ofRules [⟨"everything", .high, .all []⟩, ⟨"rest", .low, .always⟩] = .ok s
      ∧ ∀ v, Rule.matchesFeatures v ⟨"everything", .high, .all []⟩ = true
        ∧ s.firstMatch v = ⟨"everything", .high, .all []⟩
  := by
  constructor
  · decide +kernel
  · refine ⟨⟨[⟨"everything", .high, .all []⟩, ⟨"rest", .low, .always⟩], by decide +kernel⟩,
      ofRules_eq_ok_iff.mpr rfl, ?_⟩
    intro v
    exact ⟨rfl, rfl⟩

end RuleSet

end CorpusAudit
