import CorpusAudit.Tally
import Mathlib

/-!
# Facts about tallies

A count that grows by one with each item of some kind is the number of these items.  If
items may be counted before or after partial counts are merged, then it does not matter
among whom the items are split, nor in which order they come (`IsMergeable`).
-/

namespace CorpusAudit.Tally

variable {α σ : Type}

theorem count_concat (t : Tally α σ) (items : List α) (a : α) :
  t.count (items ++ [a]) = t.observe (t.count items) a
  := by
  simp [count]

/-- What grows by one with the items that have a property is their number. -/
theorem count_eq_countP (t : Tally α σ) {f : σ → Nat} {p : α → Bool} (hzero : f t.zero = 0)
    (hobserve : ∀ s a, f (t.observe s a) = f s + if p a then 1 else 0) (items : List α) :
  f (t.count items) = items.countP p
  := by
  induction items using List.reverseRecOn with
  | nil => exact hzero
  | append_singleton items a ih =>
    rw [count_concat, hobserve, ih, List.countP_append, List.countP_singleton]

/-- Items that are not counted may be left out. -/
theorem count_filter (t : Tally α σ) {p : α → Bool}
    (hobserve : ∀ s a, p a = false → t.observe s a = s) (items : List α) :
  t.count (items.filter p) = t.count items
  := by
  rw [count, count, List.foldl_filter]
  congr 1
  funext s a
  cases h : p a with
  | true => rfl
  | false => exact (hobserve s a h).symm

/-! ### Splits and orders -/

/-- Merging the count of no items changes nothing, an item may be counted before or after a
merge, and two items in either order. -/
structure IsMergeable (t : Tally α σ) : Prop where
  merge_zero : ∀ s, t.merge s t.zero = s
  merge_observe : ∀ s s' a, t.merge s (t.observe s' a) = t.observe (t.merge s s') a
  observe_comm : ∀ s a b, t.observe (t.observe s a) b = t.observe (t.observe s b) a

namespace IsMergeable

variable {t : Tally α σ}

/-- The merged counts of two lists are the count of both. -/
theorem merge_count (h : t.IsMergeable) (items items' : List α) :
  t.merge (t.count items) (t.count items') = t.count (items ++ items')
  := by
  induction items' using List.reverseRecOn with
  | nil =>
    rw [List.append_nil]
    apply h.merge_zero
  | append_singleton items' a ih =>
    rw [count_concat, h.merge_observe, ih, ← count_concat, List.append_assoc]

/-- However the items are split, the workers arrive at the count of all of them. -/
theorem count_split (h : t.IsMergeable) (s : Split α) :
  s.count t = t.count s.items
  := by
  induction s with
  | part items => rfl
  | join left right ihleft ihright =>
    rw [Split.count, ihleft, ihright, h.merge_count, Split.items]

theorem count_perm (h : t.IsMergeable) {items items' : List α} (hperm : items.Perm items') :
  t.count items = t.count items'
  := by
  apply hperm.foldl_eq'
  intro a _ b _ s
  apply h.observe_comm

end IsMergeable

end CorpusAudit.Tally
