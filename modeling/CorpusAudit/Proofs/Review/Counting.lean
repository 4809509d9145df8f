import CorpusAudit.Proofs.Ranking
import CorpusAudit.Proofs.Table
import CorpusAudit.Review.Summary

/-!
# What reviews are counted for

A summary has the number of reviews of each status, and of the checks that fail those that
fail in most reviews, each with the number of these (`summarizes_ofItems`).  The order of the
reviews does not matter (`ofItems_perm`).
-/

namespace CorpusAudit.ReviewSummary

/-! ### Failures -/

/-- The number of reviews in which a check failed. -/
def failuresOf (items : List ReviewItem) (check : String) : Nat :=
  items.countP fun i => i.checks.find? check = some (some false)

/-- In a review a check fails once or not at all. -/
theorem count_failedChecks (i : ReviewItem) (check : String) :
  (failedChecks i).count check = if i.checks.find? check = some (some false) then 1 else 0
  := by
  have hnodup : (failedChecks i).Nodup :=
    i.checks.nodup_keys.sublist (List.filter_sublist.map _)
  have hmem : check ∈ failedChecks i ↔ i.checks.find? check = some (some false) := by
    simp [failedChecks, Table.mem_entries_iff]
  split
  · next h => exact List.count_eq_one_of_mem hnodup (hmem.mpr h)
  · next h => exact List.count_eq_zero_of_not_mem (mt hmem.mp h)

theorem count_flatMap_failedChecks (items : List ReviewItem) (check : String) :
  (items.flatMap failedChecks).count check = failuresOf items check
  := by
  induction items with
  | nil => rfl
  | cons i items ih =>
    rw [List.flatMap_cons, List.count_append, count_failedChecks, ih, failuresOf, failuresOf,
      List.countP_cons]
    simp [Nat.add_comm]

theorem iterate_count (k : Nat) :
  (fun n : Option Nat => some (n.getD 0 + 1))^[k] none = if k = 0 then none else some k
  := by
  induction k with
  | zero => rfl
  | succ k ih =>
    rw [Function.iterate_succ_apply', ih]
    cases k <;> rfl

/-- The failures of a check are counted, if there are any. -/
theorem find?_countFailures (items : List ReviewItem) (check : String) :
  (countFailures items).find? check
    = if failuresOf items check = 0 then none else some (failuresOf items check)
  := by
  rw [countFailures, Table.find?_foldl_alter_keys, count_flatMap_failedChecks]
  exact iterate_count _

theorem mem_rankFailures_iff {items : List ReviewItem} {e : String × Nat} :
  e ∈ rankFailures (countFailures items) ↔ e.2 = failuresOf items e.1 ∧ 0 < e.2
  := by
  rw [rankFailures, List.mem_mergeSort, Table.mem_entries_iff, find?_countFailures]
  split
  · next h => simp [h]
  · next h =>
    rw [Option.some.injEq, eq_comm]
    exact (and_iff_left_of_imp fun he => he ▸ Nat.pos_of_ne_zero h).symm

/-- Checks are ranked by their failures. -/
theorem pairwise_rankFailures (failures : Table Nat) :
  (rankFailures failures).Pairwise (Outranks Prod.snd Prod.fst)
  := pairwise_outranks_mergeSort Prod.snd Prod.fst (by simp) failures.nodup_keys

/-! ### Summaries -/

/-- A summary says of reviews how many have each status, and which checks fail in most of
them. -/
structure Summarizes (items : List ReviewItem) (s : ReviewSummary) : Prop where
  total : s.total = items.length
  statuses : ∀ status, s.statuses status = items.countP (·.status = status)
  sum_statuses : (ReviewStatus.all.map s.statuses).sum = s.total
  length_failures : s.failures.length ≤ 5
  distinct : (s.failures.map (·.1)).Nodup
  ranked : s.failures.Pairwise (Outranks Prod.snd Prod.fst)
  failures : ∀ e ∈ s.failures, e.2 = failuresOf items e.1 ∧ 0 < e.2
  /-- A check that fails is passed over only for others that outrank it. -/
  passedOver : ∀ check, 0 < failuresOf items check → check ∉ s.failures.map (·.1) →
    s.failures.length = 5
      ∧ ∀ e ∈ s.failures, Outranks Prod.snd Prod.fst e (check, failuresOf items check)

theorem sum_countP_status (items : List ReviewItem) :
  (ReviewStatus.all.map fun status => items.countP (·.status = status)).sum = items.length
  := by
  simp only [ReviewStatus.all, List.map_cons, List.map_nil, List.sum_cons, List.sum_nil]
  induction items with
  | nil => rfl
  | cons i items ih =>
    simp only [List.countP_cons, List.length_cons]
    cases hi : i.status <;> simp [← ih] <;> omega

theorem summarizes_ofItems (items : List ReviewItem) (files : List Path) (now : Time.Instant) :
  (ofItems items files now).Summarizes items
  where
    total := rfl
    statuses _ := rfl
    sum_statuses := sum_countP_status items
    length_failures := List.length_take_le _ _
    distinct := by
      have hranked : ((rankFailures (countFailures items)).map (·.1)).Nodup :=
        ((List.mergeSort_perm _ _).map _).nodup_iff.mpr (countFailures items).nodup_keys
      exact hranked.sublist ((List.take_sublist _ _).map _)
    ranked := (pairwise_rankFailures _).take
    failures _ he := mem_rankFailures_iff.mp (List.mem_of_mem_take he)
    passedOver := by
      intro check hfails hpassed
      have hmem : (check, failuresOf items check) ∈ rankFailures (countFailures items) :=
        mem_rankFailures_iff.mpr ⟨rfl, hfails⟩
      apply passedOver_take (pairwise_rankFailures _) hmem
      exact fun htaken => hpassed (List.mem_map_of_mem htaken)

/-- The order of the reviews does not matter. -/
theorem ofItems_perm {items items' : List ReviewItem} (h : items.Perm items')
    (files : List Path) (now : Time.Instant) :
  ofItems items files now = ofItems items' files now
  := by
  have hcounts : countFailures items = countFailures items' := by
    apply Table.ext
    intro check
    have hfailures : failuresOf items check = failuresOf items' check := h.countP_eq _
    rw [find?_countFailures, find?_countFailures, hfailures]
  simp only [ofItems, hcounts, h.countP_eq, h.length_eq]

end CorpusAudit.ReviewSummary
