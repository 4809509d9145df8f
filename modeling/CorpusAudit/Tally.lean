/-!
# Tallies

A `Tally` is a count that is taken item by item and whose partial counts can be merged,
so that the items may be split among workers.  A `Split` is a way of doing so.
-/

namespace CorpusAudit

/-- A count of items of type `α`, kept as a value of type `σ`. -/
structure Tally (α σ : Type) where
  /-- The count of no items. -/
  zero : σ
  /-- Count one more item. -/
  observe : σ → α → σ
  /-- Put two counts together. -/
  merge : σ → σ → σ

/-- Count the items of a list, one after the other. -/
def Tally.count {α σ : Type} (t : Tally α σ) (items : List α) : σ :=
  items.foldl t.observe t.zero

/-- A way of splitting a list among workers: each counts a part, and their counts are
merged two by two. -/
inductive Split (α : Type) where
  | part (items : List α)
  | join (left right : Split α)
deriving Repr

/-- The list that is split. -/
def Split.items {α : Type} : Split α → List α
  | .part items => items
  | .join left right => left.items ++ right.items

/-- The count that the workers arrive at. -/
def Split.count {α σ : Type} (t : Tally α σ) : Split α → σ
  | .part items => t.count items
  | .join left right => t.merge (left.count t) (right.count t)

end CorpusAudit
