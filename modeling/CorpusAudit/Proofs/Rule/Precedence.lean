import CorpusAudit.Proofs.Table
import CorpusAudit.Rule.Set

/-!
# Rule sets are ordered by severity

The scan of a list of rules compares neighbours, and looks for names that were there
before.  This makes for an order of all rules: a list is accepted exactly if no rule is
more severe than an earlier one, the names differ, and only the last rule is a catch-all,
of the lowest tier (`RuleSet.IsPrecedence`).  So the first rule that matches is the most
severe one of those that match (`RuleSet.orders_by_severity`).
-/

namespace CorpusAudit

theorem Condition.isCatchAll_iff {c : Condition} :
  c.isCatchAll = true ↔ c = .always
  := by
  cases c <;> simp [isCatchAll]

namespace RuleSet

/-! ### Lists that are accepted -/

/-- A list of rules that ends with a catch-all of the lowest tier, has no other catch-all,
has a name for each rule of its own, and never goes from a tier to a more severe one. -/
structure IsPrecedence (rules : List Rule) : Prop where
  last : ∃ r, rules.getLast? = some r ∧ r.condition = .always ∧ r.tier = .low
  earlier : ∀ r ∈ rules.dropLast, r.condition ≠ .always
  names : (rules.map Rule.name).Nodup
  tiers : rules.Pairwise fun r s => r.tier.rank ≤ s.tier.rank

/-- One step of a scan: the rule has a new name, is a catch-all only at the end, and is at
most as severe as the rule before it. -/
theorem scan_cons_eq_none_iff {names : List String} {previous : Option Rule} {r : Rule}
    {rs : List Rule} :
  scan names previous (r :: rs) = none
    ↔ r.name ∉ names
      ∧ (rs ≠ [] → r.condition ≠ .always)
      ∧ (∀ p ∈ previous, p.tier.rank ≤ r.tier.rank)
      ∧ scan (r.name :: names) (some r) rs = none
  := by
  have hnames : names.contains r.name = true ↔ r.name ∈ names := List.contains_iff_mem
  have hearly : (r.condition.isCatchAll && !rs.isEmpty) = true
      ↔ r.condition = .always ∧ rs ≠ [] := by
    rw [Bool.and_eq_true, Condition.isCatchAll_iff]
    simp
  cases previous with
  | none =>
    simp only [scan, hnames, hearly]
    split_ifs with h h'
    · simp [h]
    · simp [h'.1, h'.2]
    · rw [and_iff_right h, and_iff_right (not_and'.mp h')]
      simp
  | some p =>
    simp only [scan, hnames, hearly]
    split_ifs with h h' h''
    · simp [h]
    · simp [h'.1, h'.2]
    · simp [Nat.not_le.mpr h'']
    · rw [and_iff_right h, and_iff_right (not_and'.mp h')]
      simp [Nat.not_lt.mp h'']

/-- A scan finds nothing wrong if the names are new and differ, only the last rule may be a
catch-all, and every rule is at most as severe as the one before it. -/
theorem scan_eq_none_iff {names : List String} {previous : Option Rule} {rules : List Rule} :
  scan names previous rules = none
    ↔ (∀ r ∈ rules, r.name ∉ names)
      ∧ (rules.map Rule.name).Nodup
      ∧ (∀ r ∈ rules.dropLast, r.condition ≠ .always)
      ∧ (previous.toList ++ rules).IsChain fun r s => r.tier.rank ≤ s.tier.rank
  := by
  induction rules generalizing names previous with
  | nil => cases previous <;> simp [scan]
  | cons r rs ih =>
    have hearlier : (∀ q ∈ (r :: rs).dropLast, q.condition ≠ .always)
        ↔ (rs ≠ [] → r.condition ≠ .always) ∧ ∀ q ∈ rs.dropLast, q.condition ≠ .always := by
      cases rs <;> simp
    have hchain : (previous.toList ++ r :: rs).IsChain (fun r s => r.tier.rank ≤ s.tier.rank)
        ↔ (∀ p ∈ previous, p.tier.rank ≤ r.tier.rank)
          ∧ (r :: rs).IsChain fun r s => r.tier.rank ≤ s.tier.rank := by
      cases previous <;> simp
    rw [scan_cons_eq_none_iff, ih, hearlier, hchain]
    simp only [List.mem_cons, not_or, List.map_cons, List.nodup_cons,
      List.mem_map, Option.toList_some, List.singleton_append]
    grind

/-- What the scan checks of neighbours holds of all rules. -/
theorem faultOf?_eq_none_iff {rules : List Rule} :
  faultOf? rules = none ↔ IsPrecedence rules
  := by
  have htiers : rules.IsChain (fun r s => r.tier.rank ≤ s.tier.rank)
      ↔ rules.Pairwise fun r s => r.tier.rank ≤ s.tier.rank := by
    have : IsTrans Rule fun r s => r.tier.rank ≤ s.tier.rank := ⟨fun _ _ _ => Nat.le_trans⟩
    apply List.isChain_iff_pairwise
  have hscan : scan [] none rules = none
      ↔ (rules.map Rule.name).Nodup
        ∧ (∀ r ∈ rules.dropLast, r.condition ≠ .always)
        ∧ rules.Pairwise fun r s => r.tier.rank ≤ s.tier.rank := by
    rw [scan_eq_none_iff, ← htiers]
    simp
  have hlast : faultOf? rules = none
      ↔ (∃ r, rules.getLast? = some r ∧ r.condition = .always ∧ r.tier = .low)
        ∧ scan [] none rules = none := by
    rw [faultOf?.eq_def]
    cases rules.getLast? with
    | none => simp
    | some r =>
      simp only [Bool.not_eq_true', Bool.eq_false_iff, ne_eq, Condition.isCatchAll_iff]
      split_ifs <;> simp_all
  rw [hlast, hscan]
  constructor
  · rintro ⟨last, names, earlier, tiers⟩
    exact ⟨last, earlier, names, tiers⟩
  · rintro ⟨last, earlier, names, tiers⟩
    exact ⟨last, names, earlier, tiers⟩

theorem ofRules_eq_ok_iff {rules : List Rule} {s : RuleSet} :
  ofRules rules = .ok s ↔ s.rules = rules
  := by
  constructor
  · intro h
    rw [ofRules] at h
    split at h
    · simp at h
    · simp only [Except.ok.injEq] at h
      rw [← h]
  · rintro rfl
    rw [ofRules]
    split
    · next e he => simp [s.sound] at he
    · rfl

/-! ### Rules that match -/

variable (s : RuleSet) (features : FeatureSet)

/-- Since the last rule matches everything, the first match is found. -/
theorem find?_eq_firstMatch :
  s.rules.find? (Rule.matchesFeatures features) = some (s.firstMatch features)
  := by
  have hfallback : Rule.matchesFeatures features s.fallback = true := by
    rw [Rule.matchesFeatures, s.fallback_eq.1, Condition.holds]
  have hsome : (s.rules.find? (Rule.matchesFeatures features)).isSome = true :=
    List.find?_isSome.mpr ⟨s.fallback, List.getLast_mem s.rules_ne_nil, hfallback⟩
  obtain ⟨r, hr⟩ := Option.isSome_iff_exists.mp hsome
  rw [firstMatch, hr, Option.getD_some]

theorem exists_matching_eq :
  ∃ later, s.matching features = s.firstMatch features :: later
  := by
  have hhead : (s.matching features).head? = some (s.firstMatch features) := by
    rw [matching, List.head?_filter, find?_eq_firstMatch]
  exact List.head?_eq_some_iff.mp hhead

theorem isPrecedence :
  IsPrecedence s.rules
  := faultOf?_eq_none_iff.mp s.sound

theorem firstMatch_mem :
  s.firstMatch features ∈ s.rules
  := List.mem_of_find?_eq_some (s.find?_eq_firstMatch features)

/-- No rule that matches is more severe than the first one. -/
theorem rank_firstMatch_le {r : Rule} (h : r ∈ s.matching features) :
  (s.firstMatch features).tier.rank ≤ r.tier.rank
  := by
  obtain ⟨later, hmatching⟩ := s.exists_matching_eq features
  have htiers : (s.matching features).Pairwise fun r s => r.tier.rank ≤ s.tier.rank :=
    s.isPrecedence.tiers.filter _
  rw [hmatching] at h htiers
  rcases List.mem_cons.mp h with rfl | h
  · apply Nat.le_refl
  · exact (List.pairwise_cons.mp htiers).1 r h

/-- A rule of the set is the only one with its name. -/
theorem filter_name_eq {r : Rule} (h : r ∈ s.rules) :
  s.rules.filter (·.name = r.name) = [r]
  := Table.filter_key_eq s.isPrecedence.names h

/-- The rule is the first of those that match, is found among the rules without recourse to
the fallback, is as severe as any that matches, and is the only one with its name. -/
structure IsMostSevere (s : RuleSet) (features : FeatureSet) (r : Rule) : Prop where
  first : ∃ later, s.matching features = r :: later
  found : s.rules.find? (Rule.matchesFeatures features) = some r
  severe : ∀ q ∈ s.matching features, r.tier.rank ≤ q.tier.rank
  named : s.rules.filter (·.name = r.name) = [r]

/-- Exactly the lists that are ordered by severity are rule sets, and in each of them the
first match is the most severe one. -/
theorem orders_by_severity :
  (∀ rules, (∃ s, ofRules rules = .ok s) ↔ IsPrecedence rules)
    ∧ (∀ rules s, ofRules rules = .ok s ↔ s.rules = rules)
    ∧ ∀ (s : RuleSet) features, s.IsMostSevere features (s.firstMatch features)
  := by
  refine ⟨?accepted, fun _ _ => ofRules_eq_ok_iff, ?matched⟩
  case accepted =>
    intro rules
    simp only [ofRules_eq_ok_iff, ← faultOf?_eq_none_iff]
    constructor
    · rintro ⟨s, rfl⟩
      exact s.sound
    · intro h
      use ⟨rules, h⟩
  case matched =>
    intro s features
    constructor
    · apply exists_matching_eq
    · apply find?_eq_firstMatch
    · intro r hr
      exact s.rank_firstMatch_le features hr
    · exact s.filter_name_eq (s.firstMatch_mem features)

end RuleSet

end CorpusAudit
