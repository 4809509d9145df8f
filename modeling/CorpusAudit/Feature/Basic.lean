import CorpusAudit.Decode

/-!
# Language features

A record of the corpus carries a `FeatureSet`: for each of thirteen features of the
source language, whether the program uses it.  The schema is closed and its order, that
of `Feature.all`, is the order of all outputs.  A feature set is determined by the
features it has (`FeatureSet.ext_has`).
-/

namespace CorpusAudit

/-- A language feature of the schema. -/
inductive Feature where
  | asyncAwait
  | generator
  | walrusOperator
  | lambda
  | contextManager
  | classDefinition
  | exceptionHandling
  | decorator
  | comprehension
  | stdinUsage
  | multiprocessing
  | functools
  | evalExec
deriving DecidableEq, Repr, Inhabited

namespace Feature

/-- The features in schema order. -/
def all : Vector Feature 13 :=
  #v[.asyncAwait, .generator, .walrusOperator, .lambda, .contextManager, .classDefinition,
    .exceptionHandling, .decorator, .comprehension, .stdinUsage, .multiprocessing, .functools,
    .evalExec]

/-- The place of a feature in the schema. -/
def index : Feature → Fin 13
  | .asyncAwait => 0
  | .generator => 1
  | .walrusOperator => 2
  | .lambda => 3
  | .contextManager => 4
  | .classDefinition => 5
  | .exceptionHandling => 6
  | .decorator => 7
  | .comprehension => 8
  | .stdinUsage => 9
  | .multiprocessing => 10
  | .functools => 11
  | .evalExec => 12

/-- The feature at a place of the schema. -/
def ofIndex (i : Fin 13) : Feature :=
  all[i]

/-- The schema has every feature at its place. -/
theorem ofIndex_index (f : Feature) :
  ofIndex f.index = f
  := by
  cases f <;> rfl

/-- The place of the feature at a place is that place. -/
theorem index_ofIndex (i : Fin 13) :
  (ofIndex i).index = i
  := by
  revert i
  decide

theorem index_injective {f g : Feature} (h : f.index = g.index) :
  f = g
  := by
  rw [← ofIndex_index f, ← ofIndex_index g, h]

/-- The name of a feature in tables and reports. -/
def name : Feature → String
  | .asyncAwait => "async_await"
  | .generator => "generator"
  | .walrusOperator => "walrus_operator"
  | .lambda => "lambda"
  | .contextManager => "context_manager"
  | .classDefinition => "class_definition"
  | .exceptionHandling => "exception_handling"
  | .decorator => "decorator"
  | .comprehension => "comprehension"
  | .stdinUsage => "stdin_usage"
  | .multiprocessing => "multiprocessing"
  | .functools => "functools"
  | .evalExec => "eval_exec"

/-- The feature with the given name. -/
def ofName? (s : String) : Option Feature :=
  all.toList.find? (·.name = s)

/-- Every feature is found by its name. -/
theorem ofName?_name (f : Feature) :
  ofName? f.name = some f
  := by
  cases f <;> decide +kernel

/-- What is said of a name that is no feature. -/
def unknownMessage (s : String) : String :=
  "unknown feature '" ++ s ++ "'"

end Feature

/-- For each feature, whether it is present. -/
structure FeatureSet where
  flags : Vector Bool 13
deriving DecidableEq, Repr

namespace FeatureSet

/-- Whether a feature is present. -/
def has (s : FeatureSet) (f : Feature) : Bool :=
  s.flags[f.index]

/-- The set of the features with a property. -/
def ofPredicate (p : Feature → Bool) : FeatureSet :=
  ⟨Vector.ofFn fun i => p (Feature.ofIndex i)⟩

@[simp]
theorem has_ofPredicate (p : Feature → Bool) (f : Feature) :
  (ofPredicate p).has f = p f
  := by
  simp only [has, ofPredicate, Fin.getElem_fin, Vector.getElem_ofFn]
  exact congrArg p (Feature.ofIndex_index f)

/-- A feature set is determined by the features it has. -/
theorem ext_has {s t : FeatureSet} (h : ∀ f, s.has f = t.has f) :
  s = t
  := by
  obtain ⟨s⟩ := s
  obtain ⟨t⟩ := t
  congr 1
  apply Vector.ext
  intro i hi
  have := h (Feature.ofIndex ⟨i, hi⟩)
  simpa only [has, Feature.index_ofIndex, Fin.getElem_fin] using this

/-- The set without features. -/
def empty : FeatureSet :=
  ofPredicate fun _ => false

instance : Inhabited FeatureSet := ⟨empty⟩

/-- The set with one feature made present or absent. -/
def set (s : FeatureSet) (f : Feature) (present : Bool) : FeatureSet :=
  ofPredicate fun g => if g = f then present else s.has g

@[simp]
theorem has_set (s : FeatureSet) (f g : Feature) (present : Bool) :
  (s.set f present).has g = if g = f then present else s.has g
  := has_ofPredicate _ g

/-- The features that are present, in schema order. -/
def present (s : FeatureSet) : List Feature :=
  Feature.all.toList.filter s.has

theorem mem_present {s : FeatureSet} {f : Feature} :
  f ∈ s.present ↔ s.has f = true
  := by
  simp only [present, List.mem_filter, and_iff_right_iff_imp]
  intro _
  cases f <;> decide

/-- The number of features that are present. -/
def count (s : FeatureSet) : Nat :=
  s.present.length

/-- The columns of a feature set, in schema order. -/
def toValue (s : FeatureSet) : Value :=
  .record (Feature.all.toList.map fun f => (f.name, .bool (s.has f)))

/-- Absent columns are features that were not observed; other columns are refused. -/
def decode : Decoder FeatureSet := fun v => do
  let fs ← Decode.fields .json (Feature.all.toList.map Feature.name) false v
  let flags ← Feature.all.mapM fun f => fs.orElse f.name Decode.bool false
  some ⟨flags⟩

end FeatureSet

end CorpusAudit
