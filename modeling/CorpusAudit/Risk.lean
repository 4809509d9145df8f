import CorpusAudit.Decode

/-!
# Risk tiers

Every record is given one of three tiers, the most severe first.  `ByTier` holds one value
for each of them.
-/

namespace CorpusAudit

/-- How likely an attempt at transpiling a program is to fail. -/
inductive Tier where
  | high
  | medium
  | low
deriving DecidableEq, Repr, Inhabited

namespace Tier

/-- The tiers, the most severe first. -/
def all : List Tier :=
  [.high, .medium, .low]

/-- The place of a tier, the most severe first. -/
def rank : Tier → Nat
  | .high => 0
  | .medium => 1
  | .low => 2

/-- The name of a tier in all outputs. -/
def name : Tier → String
  | .high => "HIGH"
  | .medium => "MEDIUM"
  | .low => "LOW"

/-- The tier with the given name. -/
def ofName? (s : String) : Option Tier :=
  all.find? (·.name = s)

/-- Every tier is found by its name. -/
theorem ofName?_name (t : Tier) :
  ofName? t.name = some t
  := by
  cases t <;> decide +kernel

theorem rank_injective {s t : Tier} (h : s.rank = t.rank) :
  s = t
  := by
  cases s <;> cases t <;> simp_all [rank]

/-- A tier as a value. -/
def toValue (t : Tier) : Value :=
  .text t.name

/-- A tier is given by its name. -/
def decode (d : Decode.Dialect) : Decoder Tier :=
  Decode.choice d ofName?

end Tier

/-- One value for every tier. -/
structure ByTier (α : Type) where
  high : α
  medium : α
  low : α
deriving DecidableEq, Repr, Inhabited

namespace ByTier

variable {α β : Type}

/-- The value of a tier. -/
def get (b : ByTier α) : Tier → α
  | .high => b.high
  | .medium => b.medium
  | .low => b.low

/-- The values of a function on tiers. -/
def of (f : Tier → α) : ByTier α :=
  ⟨f .high, f .medium, f .low⟩

@[simp]
theorem get_of (f : Tier → α) (t : Tier) :
  (of f).get t = f t
  := by
  cases t <;> rfl

theorem ext_get {b c : ByTier α} (h : ∀ t, b.get t = c.get t) :
  b = c
  := by
  obtain ⟨x, y, z⟩ := b
  obtain ⟨x', y', z'⟩ := c
  have h1 : x = x' := h .high
  have h2 : y = y' := h .medium
  have h3 : z = z' := h .low
  subst h1 h2 h3
  rfl

/-- A record with a field for every tier that has a value, in the order of the tiers. -/
def toValue (f : α → Value) (b : ByTier (Option α)) : Value :=
  .record (Tier.all.filterMap fun t => (b.get t).map fun a => (t.name, f a))

/-- Read a record whose fields are named for tiers; the last field of each name is
kept. -/
def decode (d : Decoder α) : Decoder (ByTier (Option α))
  | .record fields => do
    let entries ← fields.mapM fun f => do
      let t ← Tier.ofName? f.1
      let a ← d f.2
      some (t, a)
    some (of fun t => (entries.reverse.find? (·.1 = t)).map (·.2))
  | _ => none

end ByTier

end CorpusAudit
