import CorpusAudit.Gate.Comparison
import CorpusAudit.Proofs.Table

/-!
# Regressions

The two passes of a comparison put every key into the set of what became of it
(`Changes.mem_between`).  So a comparison is a regression exactly when some key is in both
snapshots and passes in the first but not in the second, and it leaves nothing open
exactly when both have the same keys.
-/

namespace CorpusAudit

/-! ### Keys and sets -/

/-- What it means for a change that it befell a key, in terms of what the two snapshots have
for the key. -/
def Change.Befell : Change → Option Bool → Option Bool → Prop
  | .nowPassing, before, after => before = some false ∧ after = some true
  | .regressed, before, after => before = some true ∧ after = some false
  | .unchanged, before, after => ∃ passes, before = some passes ∧ after = some passes
  | .noPriorData, before, after => before.isSome ≠ after.isSome

theorem Change.of_eq_iff {passed : Bool} {after : Option Bool} {c : Change} :
  Change.of passed after = c ↔ c.Befell (some passed) after
  := by
  cases c <;> cases passed <;> rcases after with _ | (_ | _) <;> simp [of, Befell]

namespace Changes

variable {s : Changes} {before after : Table Bool} {key : String} {c : Change}

/-- The keys that a change befell. -/
def get (s : Changes) : Change → Table Unit
  | .nowPassing => s.nowPassing
  | .regressed => s.regressed
  | .unchanged => s.unchanged
  | .noPriorData => s.noPriorData

theorem get_add (s : Changes) (key : String) (c d : Change) :
  (s.add key c).get d = if d = c then (s.get d).insert key () else s.get d
  := by
  cases c <;> cases d <;> rfl

/-- The keys that are put into the sets one after the other are in them, and no others. -/
theorem mem_get_foldl {α : Type} (name : α → String) (became : α → Change) (items : List α) :
  key ∈ ((items.foldl (fun s a => s.add (name a) (became a)) s).get c).keys
    ↔ key ∈ (s.get c).keys ∨ ∃ a ∈ items, name a = key ∧ became a = c
  := by
  induction items generalizing s with
  | nil => simp
  | cons a items ih =>
    have hadd : key ∈ ((s.add (name a) (became a)).get c).keys
        ↔ key ∈ (s.get c).keys ∨ name a = key ∧ became a = c := by
      rw [get_add]
      by_cases hc : c = became a
      · rw [if_pos hc, Table.mem_keys_insert, or_comm, eq_comm (a := key)]
        simp [hc]
      · rw [if_neg hc]
        simp [Ne.symm hc]
    rw [List.foldl_cons, ih, hadd, List.exists_mem_cons_iff, or_assoc]

/-- The first pass finds what became of the keys of the first table. -/
theorem mem_ofFirst :
  key ∈ ((ofFirst before after).get c).keys
    ↔ ∃ passed, before.find? key = some passed ∧ Change.of passed (after.find? key) = c
  := by
  have hnone : key ∉ (({} : Changes).get c).keys := by cases c <;> exact List.not_mem_nil
  rw [ofFirst, mem_get_foldl, or_iff_right hnone]
  constructor
  · rintro ⟨⟨k, passed⟩, hmem, rfl, hc⟩
    exact ⟨passed, Table.mem_entries_iff.mp hmem, hc⟩
  · rintro ⟨passed, hfind, hc⟩
    exact ⟨(key, passed), Table.mem_entries_iff.mpr hfind, rfl, hc⟩

/-- Both passes together put every key of the two tables into the set of what became of it. -/
theorem mem_between :
  key ∈ ((between before after).get c).keys ↔ c.Befell (before.find? key) (after.find? key)
  := by
  have hsecond : (∃ k ∈ after.keys.filter fun k => (before.find? k).isNone,
      k = key ∧ Change.noPriorData = c)
      ↔ before.find? key = none ∧ (after.find? key).isSome = true ∧ Change.noPriorData = c := by
    simp [Table.isSome_find?, and_comm, and_left_comm]
  rw [between, mem_get_foldl (fun k => k), mem_ofFirst, hsecond]
  cases before.find? key with
  | some passed => simp [Change.of_eq_iff]
  | none => cases c <;> cases after.find? key <;> simp [Change.Befell]

end Changes

/-! ### Regressions -/

namespace Comparison

/-- What a comparison of two snapshots of one level tells is what the passes over them
find. -/
theorem of_eq_ok_iff {before after : Snapshot} {c : Comparison} :
  of before after = .ok c
    ↔ before.level = after.level
      ∧ c = ofChanges after.level (.between before.entries after.entries)
  := by
  rw [of]
  split
  · next hne => simp [hne]
  · next heq => simp [not_not.mp heq, eq_comm]

variable {before after : Snapshot} {c : Comparison} {key : String}

theorem mem_nowPassing (h : of before after = .ok c) :
  key ∈ c.nowPassing ↔ before.entries.find? key = some false ∧ after.entries.find? key = some true
  := by
  obtain ⟨-, rfl⟩ := of_eq_ok_iff.mp h
  exact Changes.mem_between (c := .nowPassing)

theorem mem_regressed (h : of before after = .ok c) :
  key ∈ c.regressed ↔ before.entries.find? key = some true ∧ after.entries.find? key = some false
  := by
  obtain ⟨-, rfl⟩ := of_eq_ok_iff.mp h
  exact Changes.mem_between (c := .regressed)

theorem mem_unchanged (h : of before after = .ok c) :
  key ∈ c.unchanged ↔ ∃ passes, before.entries.find? key = some passes
    ∧ after.entries.find? key = some passes
  := by
  obtain ⟨-, rfl⟩ := of_eq_ok_iff.mp h
  exact Changes.mem_between (c := .unchanged)

theorem mem_noPriorData (h : of before after = .ok c) :
  key ∈ c.noPriorData
    ↔ (before.entries.find? key).isSome ≠ (after.entries.find? key).isSome
  := by
  obtain ⟨-, rfl⟩ := of_eq_ok_iff.mp h
  exact Changes.mem_between (c := .noPriorData)

theorem regressed_eq_nil_iff (h : of before after = .ok c) :
  c.regressed = []
    ↔ ∀ key, before.entries.find? key = some true → after.entries.find? key ≠ some false
  := by
  simp only [List.eq_nil_iff_forall_not_mem, mem_regressed h, not_and, ne_eq]

theorem noPriorData_eq_nil_iff (h : of before after = .ok c) :
  c.noPriorData = []
    ↔ ∀ key, (before.entries.find? key).isSome = (after.entries.find? key).isSome
  := by
  simp only [List.eq_nil_iff_forall_not_mem, mem_noPriorData h, ne_eq, not_not]

/-- Snapshots of one level are compared, and it is a regression if some key has ceased to
pass. -/
theorem of_eq_ok (h : before.level = after.level) :
  ∃ c, of before after = .ok c
    ∧ (c.isRegression = true
      ↔ ∃ key, before.entries.find? key = some true ∧ after.entries.find? key = some false)
  := by
  have hc := of_eq_ok_iff.mpr ⟨h, rfl⟩
  refine ⟨_, hc, ?_⟩
  simp only [isRegression, Bool.not_eq_true', List.isEmpty_eq_false_iff_exists_mem, mem_regressed hc]

end Comparison

/-! ### Snapshots -/

/-- With different identifiers, the snapshot of records says of every record whether it
passes. -/
theorem Snapshot.find?_ofRecords {records : List Record} (h : (records.map Record.id).Nodup)
    {id : String} {passes : Bool} :
  (ofRecords records).entries.find? id = some passes
    ↔ ∃ r ∈ records, r.id = id ∧ r.isPassing = passes
  := by
  have hnodup : ((records.map fun r => (r.id, r.isPassing)).map (·.1)).Nodup := by
    rwa [List.map_map]
  rw [ofRecords, Table.find?_ofList_of_nodup hnodup, Table.lookup_eq_some_iff hnodup]
  simp

end CorpusAudit
