import CorpusAudit.Feature.Basic
import CorpusAudit.Risk

/-!
# Rules

A `Rule` gives a tier to the programs whose features meet its condition.
-/

namespace CorpusAudit

/-- A feature is given by its name. -/
def Feature.decode (d : Decode.Dialect) : Decoder Feature :=
  Decode.choice d Feature.ofName?

/-- A condition on the features of a program. -/
inductive Condition where
  /-- The feature is present. -/
  | has (f : Feature)
  /-- All of the features are present. -/
  | all (fs : List Feature)
  /-- One of the features is present. -/
  | any (fs : List Feature)
  /-- No condition. -/
  | always
deriving DecidableEq, Repr

namespace Condition

/-- Whether features meet a condition. -/
def holds (s : FeatureSet) : Condition → Bool
  | .has f => s.has f
  | .all fs => fs.all s.has
  | .any fs => fs.any s.has
  | .always => true

/-- Whether a condition is written as one that everything meets. -/
def isCatchAll : Condition → Bool
  | .always => true
  | _ => false

/-- A condition as a value: the name of its kind, with what it is about. -/
def toValue : Condition → Value
  | .has f => .record [("has", .text f.name)]
  | .all fs => .record [("all", .list (fs.map fun f => .text f.name))]
  | .any fs => .record [("any", .list (fs.map fun f => .text f.name))]
  | .always => .text "always"

/-- Read a condition as it is written by `toValue`. -/
def decode (d : Decode.Dialect) : Decoder Condition
  | .text "always" => some .always
  | .record [("always", v)] => if d.isNothing v then some .always else none
  | .record [("has", v)] => (Feature.decode d v).map .has
  | .record [("all", v)] => (Decode.list (Feature.decode d) v).map .all
  | .record [("any", v)] => (Decode.list (Feature.decode d) v).map .any
  | _ => none

end Condition

/-- A tier for the programs that meet a condition. -/
structure Rule where
  /-- The name by which labels refer to the rule. -/
  name : String
  tier : Tier
  condition : Condition
deriving DecidableEq, Repr

namespace Rule

/-- Whether a rule matches the features of a program. -/
def matchesFeatures (s : FeatureSet) (r : Rule) : Bool :=
  r.condition.holds s

/-- A rule as a value. -/
def toValue (r : Rule) : Value :=
  .record [("name", .text r.name), ("tier", r.tier.toValue), ("when", r.condition.toValue)]

/-- Read a rule as it is written by `toValue`. -/
def decode (d : Decode.Dialect) : Decoder Rule := fun v => do
  let fs ← Decode.fields d ["name", "tier", "when"] true v
  let name ← fs.required "name" Decode.text
  let tier ← fs.required "tier" (Tier.decode d)
  let condition ← fs.required "when" (Condition.decode d)
  some ⟨name, tier, condition⟩

end Rule

end CorpusAudit
