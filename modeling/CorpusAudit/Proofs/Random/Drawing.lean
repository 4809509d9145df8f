import CorpusAudit.Random.Draw
import Mathlib

/-!
# Items that are drawn

Whatever the random words are, the items that are drawn from a list are items of the list,
none of them more often than it is there, and as many as were asked for.  A place that is
locked is never touched again, so drawing more items only adds to those that are drawn
first (`choose_suffix_choose`).
-/

namespace CorpusAudit.Random

variable {α : Type}

/-! ### Locked places -/

theorem perm_swapIfInBounds (items : Array α) (i j : Nat) :
  (items.swapIfInBounds i j).Perm items
  := by
  rw [Array.swapIfInBounds_def]
  split
  · split
    · exact Array.swap_perm _ _
    · exact Array.Perm.refl items
  · exact Array.Perm.refl items

/-- Locking places only moves the items. -/
theorem perm_lock (s : Stream) (count free place : Nat) (items : Array α) :
  (lock s count free place items).Perm items
  := by
  induction count generalizing free place items with
  | zero => exact Array.Perm.refl items
  | succ count ih =>
    cases free with
    | zero => exact Array.Perm.refl items
    | succ free =>
      rw [lock]
      exact (ih free _ _).trans (perm_swapIfInBounds items _ _)

theorem size_lock (s : Stream) (count free place : Nat) (items : Array α) :
  (lock s count free place items).size = items.size
  := (perm_lock s count free place items).size_eq

theorem getElem?_swapIfInBounds_of_lt (items : Array α) {i j k : Nat} (hi : i < k) (hj : j < k) :
  (items.swapIfInBounds i j)[k]? = items[k]?
  := by
  rw [Array.swapIfInBounds_def]
  split
  · split
    · rw [Array.getElem?_swap, if_neg (by omega), if_neg (by omega)]
    · rfl
  · rfl

/-- The places behind the free ones keep their items. -/
theorem getElem?_lock (s : Stream) (count : Nat) {free i : Nat} (hi : free ≤ i) (place : Nat)
    (items : Array α) :
  (lock s count free place items)[i]? = items[i]?
  := by
  induction count generalizing free place items with
  | zero => rfl
  | succ count ih =>
    cases free with
    | zero => rfl
    | succ free =>
      rw [lock, ih (by omega)]
      have hdrawn := draw_lt s (by omega : 0 < free + 1) place
      exact getElem?_swapIfInBounds_of_lt items hi (by omega)

/-- What stands at a locked place does not depend on how many places are locked after it. -/
theorem getElem?_lock_of_le (s : Stream) {count count' : Nat} (h : count ≤ count')
    {free i : Nat} (hi : free - count ≤ i) (place : Nat) (items : Array α) :
  (lock s count' free place items)[i]? = (lock s count free place items)[i]?
  := by
  induction count generalizing count' free place items with
  | zero => exact getElem?_lock s count' hi place items
  | succ count ih =>
    obtain ⟨count', rfl⟩ : ∃ n, count' = n + 1 := ⟨count' - 1, by omega⟩
    cases free with
    | zero => rfl
    | succ free =>
      rw [lock, lock]
      exact ih (by omega) (by omega) _ _

/-! ### Drawn items -/

/-- What is drawn from a list is there at least as often. -/
theorem choose_subperm (s : Stream) (count : Nat) (items : List α) :
  (choose s count items).Subperm items
  := by
  have hperm := (perm_lock s count items.length 0 items.toArray).toList
  exact (List.drop_sublist _ _).subperm.trans hperm.subperm

theorem length_choose (s : Stream) {count : Nat} {items : List α} (h : count ≤ items.length) :
  (choose s count items).length = count
  := by
  rw [choose, List.length_drop, Array.length_toList, size_lock, List.size_toArray]
  omega

/-- Drawing more items adds to those that are drawn first. -/
theorem choose_suffix_choose (s : Stream) {count count' : Nat} (h : count ≤ count')
    (items : List α) :
  choose s count items <:+ choose s count' items
  := by
  have hsame : choose s count items
      = ((lock s count' items.length 0 items.toArray).toList).drop (items.length - count) := by
    apply List.ext_getElem?
    intro i
    rw [choose, List.getElem?_drop, List.getElem?_drop, Array.getElem?_toList,
      Array.getElem?_toList]
    exact (getElem?_lock_of_le s h (Nat.le_add_right _ _) 0 items.toArray).symm
  have hdrop : items.length - count
      = (items.length - count') + (items.length - count - (items.length - count')) := by
    omega
  rw [hsame, hdrop, ← List.drop_drop, choose]
  exact List.drop_suffix _ _

end CorpusAudit.Random
