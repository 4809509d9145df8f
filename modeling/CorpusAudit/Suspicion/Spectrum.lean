import CorpusAudit.Corpus.Record
import CorpusAudit.Tally

/-!
# Spectra

A `Spectrum` counts the records that failed and those that passed, and how many of each
have a feature; records without an outcome are left aside.  From the four counts of a
feature a `Formula` computes how suspicious it is, a number from zero to one.
-/

namespace CorpusAudit

/-- A formula for suspiciousness. -/
inductive Formula where
  /-- The share of failures that have the feature, against that of successes. -/
  | tarantula
  /-- The cosine between having the feature and failing. -/
  | ochiai
deriving DecidableEq, Repr, Inhabited

namespace Formula

/-- The formulas. -/
def all : List Formula :=
  [.tarantula, .ochiai]

/-- The name of a formula in documents and on the command line. -/
def name : Formula → String
  | .tarantula => "tarantula"
  | .ochiai => "ochiai"

/-- The name of a formula in texts. -/
def title : Formula → String
  | .tarantula => "Tarantula"
  | .ochiai => "Ochiai"

/-- The formula with the given name. -/
def ofName? (s : String) : Option Formula :=
  all.find? (·.name = s)

/-- A formula is given by its name. -/
def decode (d : Decode.Dialect) : Decoder Formula :=
  Decode.choice d ofName?

end Formula

/-- How many records failed and passed, with a feature and altogether. -/
structure FeatureCount where
  failedWith : Nat
  passedWith : Nat
  totalFailed : Nat
  totalPassed : Nat
deriving DecidableEq, Repr, Inhabited

namespace FeatureCount

/-- The part that a number is of a total; nothing is no part of nothing. -/
def share (part total : Nat) : Float :=
  if total = 0 then 0 else Float.ofNat part / Float.ofNat total

/-- How suspicious a feature is. -/
def score (n : FeatureCount) : Formula → Float
  | .tarantula =>
    let failing := share n.failedWith n.totalFailed
    let passing := share n.passedWith n.totalPassed
    if failing + passing > 0 then failing / (failing + passing) else 0
  | .ochiai =>
    let failing := Float.ofNat n.failedWith
    let scale := (Float.ofNat n.totalFailed * (failing + Float.ofNat n.passedWith)).sqrt
    if scale > 0 then failing / scale else 0

end FeatureCount

/-- Counts of outcomes for every feature. -/
structure Spectrum where
  totalFailed : Nat
  totalPassed : Nat
  failedWith : Vector Nat 13
  passedWith : Vector Nat 13
deriving DecidableEq, Repr

namespace Spectrum

/-- The counts of no records. -/
def zero : Spectrum :=
  ⟨0, 0, Vector.replicate 13 0, Vector.replicate 13 0⟩

instance : Inhabited Spectrum := ⟨zero⟩

/-- Count one more program, feature by feature. -/
def bump (counts : Vector Nat 13) (s : FeatureSet) : Vector Nat 13 :=
  Vector.ofFn fun i => counts.get i + if s.has (Feature.ofIndex i) then 1 else 0

/-- Count one more record. -/
def observe (s : Spectrum) (r : Record) : Spectrum :=
  match r.outcome with
  | some .fail =>
    { s with totalFailed := s.totalFailed + 1, failedWith := bump s.failedWith r.features }
  | some .pass =>
    { s with totalPassed := s.totalPassed + 1, passedWith := bump s.passedWith r.features }
  | none => s

/-- The counts of two groups of records together. -/
def merge (a b : Spectrum) : Spectrum where
  totalFailed := a.totalFailed + b.totalFailed
  totalPassed := a.totalPassed + b.totalPassed
  failedWith := a.failedWith.zipWith (· + ·) b.failedWith
  passedWith := a.passedWith.zipWith (· + ·) b.passedWith

/-- Records are counted one by one. -/
def tally : Tally Record Spectrum where
  zero := zero
  observe := observe
  merge := merge

/-- The counts of the given records. -/
def collect (records : List Record) : Spectrum :=
  tally.count records

/-- The number of records that have an outcome. -/
def outcomes (s : Spectrum) : Nat :=
  s.totalFailed + s.totalPassed

/-- The counts of a feature. -/
def feature (s : Spectrum) (f : Feature) : FeatureCount :=
  ⟨s.failedWith.get f.index, s.passedWith.get f.index, s.totalFailed, s.totalPassed⟩

end Spectrum

end CorpusAudit
