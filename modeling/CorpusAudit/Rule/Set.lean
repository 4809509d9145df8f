import CorpusAudit.Fault
import CorpusAudit.Rule.Basic

/-!
# Rule sets

A `RuleSet` is a list of rules that goes from the most severe tier to the least and ends
with a rule that matches everything, so that there is always a first rule that matches.
Lists that are not like this are refused (`RuleSet.faultOf?`).
-/

namespace CorpusAudit

namespace RuleSet

/-- What is wrong in a list of rules, the names and the rule before it being given. -/
def scan (names : List String) (previous : Option Rule) : List Rule → Option ConfigurationFault
  | [] => none
  | r :: rs =>
    if names.contains r.name then some (.duplicateRule r.name)
    else if r.condition.isCatchAll && !rs.isEmpty then some (.earlyCatchAll r.name)
    else match previous with
      | none => scan (r.name :: names) (some r) rs
      | some p =>
        if r.tier.rank < p.tier.rank then some (.tierOrder r.name r.tier p.name p.tier)
        else scan (r.name :: names) (some r) rs

/-- Why a list is no rule set, if it is none. -/
def faultOf? (rules : List Rule) : Option ConfigurationFault :=
  match rules.getLast? with
  | none => some .emptyRuleSet
  | some last =>
    if !last.condition.isCatchAll then some (.noCatchAll last.name)
    else if last.tier ≠ .low then some (.catchAllTier last.name last.tier)
    else scan [] none rules

end RuleSet

/-- Rules in order of precedence. -/
structure RuleSet where
  rules : List Rule
  sound : RuleSet.faultOf? rules = none

namespace RuleSet

instance : Repr RuleSet := ⟨fun s n => reprPrec s.rules n⟩

instance : DecidableEq RuleSet := fun s t =>
  if h : s.rules = t.rules then isTrue (by cases s; cases t; simp_all)
  else isFalse fun e => h (congrArg RuleSet.rules e)

/-- The rule set of a list, or why it is none. -/
def ofRules (rules : List Rule) : Except ConfigurationFault RuleSet :=
  match h : faultOf? rules with
  | some e => .error e
  | none => .ok ⟨rules, h⟩

/-- A rule set has a last rule. -/
theorem rules_ne_nil (s : RuleSet) :
  s.rules ≠ []
  := by
  intro h
  have := s.sound
  simp [faultOf?, h] at this

/-- The last rule, which matches everything. -/
def fallback (s : RuleSet) : Rule :=
  s.rules.getLast s.rules_ne_nil

/-- The first rule that matches features. -/
def firstMatch (s : RuleSet) (features : FeatureSet) : Rule :=
  (s.rules.find? (Rule.matchesFeatures features)).getD s.fallback

/-- All rules that match features, in order of precedence. -/
def matching (s : RuleSet) (features : FeatureSet) : List Rule :=
  s.rules.filter (Rule.matchesFeatures features)

/-- The last rule is a catch-all for the lowest tier. -/
theorem fallback_eq (s : RuleSet) :
  s.fallback.condition = .always ∧ s.fallback.tier = .low
  := by
  have hs := s.sound
  have hl : s.rules.getLast? = some s.fallback := by
    rw [fallback, List.getLast?_eq_some_getLast s.rules_ne_nil]
  simp only [faultOf?, hl] at hs
  split at hs
  · simp at hs
  · next hc =>
    split at hs
    · simp at hs
    · next ht =>
      refine ⟨?_, Classical.not_not.mp ht⟩
      rcases hcond : s.fallback.condition with f | fs | fs | _ <;>
        simp_all [Condition.isCatchAll]

/-- The rules for programs of which nothing else is known: features that most often go
with failures are of the most severe tier. -/
def default : RuleSet where
  rules := [
    ⟨"async_pattern", .high, .has .asyncAwait⟩,
    ⟨"generator_pattern", .high, .has .generator⟩,
    ⟨"walrus_pattern", .high, .has .walrusOperator⟩,
    ⟨"dynamic_eval_pattern", .high, .has .evalExec⟩,
    ⟨"lambda_pattern", .medium, .has .lambda⟩,
    ⟨"context_manager_pattern", .medium, .has .contextManager⟩,
    ⟨"multiprocessing_pattern", .medium, .has .multiprocessing⟩,
    ⟨"class_exception_pattern", .medium, .all [.classDefinition, .exceptionHandling]⟩,
    ⟨"default_low", .low, .always⟩]
  sound := by decide +kernel

instance : Inhabited RuleSet := ⟨default⟩

/-- A rule set as a value: the list of its rules. -/
def toValue (s : RuleSet) : Value :=
  .list (s.rules.map Rule.toValue)

/-- Read a list of rules that is a rule set. -/
def decode (d : Decode.Dialect) : Decoder RuleSet := fun v => do
  let rules ← Decode.list (Rule.decode d) v
  (ofRules rules).toOption

end RuleSet

end CorpusAudit
