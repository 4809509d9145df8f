import CorpusAudit.Decode

/-!
# Facts about document values

How deep lists and records are nested in a value (`Value.depth`), and what a bound on
their nesting does: values below the bound stay as they are, and no readable value comes
from one above it.  Values that are read anyhow (`Decode.any`) are settled part by part.
-/

namespace CorpusAudit

namespace Value

mutual

/-- How many lists and records are nested in a value. -/
def depth : Value → Nat
  | .list items => depthItems items + 1
  | .record fields => depthFields fields + 1
  | _ => 0
termination_by structural v => v

/-- How many lists and records are nested in the deepest value of a list. -/
def depthItems : List Value → Nat
  | [] => 0
  | v :: vs => max (depth v) (depthItems vs)
termination_by structural vs => vs

/-- How many lists and records are nested in the deepest field of a record. -/
def depthFields : List (String × Value) → Nat
  | [] => 0
  | (_, v) :: fs => max (depth v) (depthFields fs)
termination_by structural fs => fs

end

/-! ### Bounded nesting -/

mutual

theorem limit_of_depth_le : ∀ {v : Value} {d : Nat}, v.depth ≤ d → v.limit d = v
  | .list items, 0, h => by simp [depth] at h
  | .list items, d + 1, h => by
    rw [limit, limitItems_of_depth_le]
    simpa [depth] using h
  | .record fields, 0, h => by simp [depth] at h
  | .record fields, d + 1, h => by
    rw [limit, limitFields_of_depth_le]
    simpa [depth] using h
  | .null, _, _ | .bool _, _, _ | .int _, _, _ | .float _, _, _ | .text _, _, _
  | .unreadable, _, _ => rfl

theorem limitItems_of_depth_le :
    ∀ {vs : List Value} {d : Nat}, depthItems vs ≤ d → limitItems d vs = vs
  | [], _, _ => rfl
  | v :: vs, d, h => by
    simp only [depthItems] at h
    rw [limitItems, limit_of_depth_le (by omega), limitItems_of_depth_le (by omega)]

theorem limitFields_of_depth_le :
    ∀ {fs : List (String × Value)} {d : Nat}, depthFields fs ≤ d → limitFields d fs = fs
  | [], _, _ => rfl
  | (n, v) :: fs, d, h => by
    simp only [depthFields] at h
    rw [limitFields, limit_of_depth_le (by omega), limitFields_of_depth_le (by omega)]

end

mutual

/-- A bound on the nesting that leaves a value readable does not change it. -/
theorem limit_of_isReadable :
    ∀ {v : Value} {d : Nat}, (v.limit d).isReadable = true → v.limit d = v
  | .list items, 0, h => by simp [limit, isReadable] at h
  | .list items, d + 1, h => by
    rw [limit, limitItems_of_areReadable]
    simpa [limit, isReadable] using h
  | .record fields, 0, h => by simp [limit, isReadable] at h
  | .record fields, d + 1, h => by
    rw [limit, limitFields_of_areReadable]
    simpa [limit, isReadable] using h
  | .null, _, _ | .bool _, _, _ | .int _, _, _ | .float _, _, _ | .text _, _, _
  | .unreadable, _, _ => rfl

theorem limitItems_of_areReadable :
    ∀ {vs : List Value} {d : Nat}, areReadable (limitItems d vs) = true → limitItems d vs = vs
  | [], _, _ => rfl
  | v :: vs, d, h => by
    simp only [limitItems, areReadable, Bool.and_eq_true] at h
    rw [limitItems, limit_of_isReadable h.1, limitItems_of_areReadable h.2]

theorem limitFields_of_areReadable :
    ∀ {fs : List (String × Value)} {d : Nat}, fieldsAreReadable (limitFields d fs) = true →
      limitFields d fs = fs
  | [], _, _ => rfl
  | (n, v) :: fs, d, h => by
    simp only [limitFields, fieldsAreReadable, Bool.and_eq_true] at h
    rw [limitFields, limit_of_isReadable h.1, limitFields_of_areReadable h.2]

end

/-! ### Parts of values -/

theorem areReadable_iff {vs : List Value} :
  areReadable vs = true ↔ ∀ v ∈ vs, v.isReadable = true
  := by
  induction vs with
  | nil => simp [areReadable]
  | cons v vs ih => simp [areReadable, ih]

theorem fieldsAreReadable_iff {fs : List (String × Value)} :
  fieldsAreReadable fs = true ↔ ∀ f ∈ fs, f.2.isReadable = true
  := by
  induction fs with
  | nil => simp [fieldsAreReadable]
  | cons f fs ih => rw [fieldsAreReadable, Bool.and_eq_true, ih, List.forall_mem_cons]

theorem settleItems_eq_map (vs : List Value) :
  settleItems vs = vs.map settle
  := by
  induction vs with
  | nil => rfl
  | cons v vs ih => rw [settleItems, ih, List.map_cons]

theorem settleFields_eq_map (fs : List (String × Value)) :
  settleFields fs = fs.map fun f => (f.1, f.2.settle)
  := by
  induction fs with
  | nil => rfl
  | cons f fs ih => rw [settleFields, ih, List.map_cons]

theorem depthItems_le_iff {vs : List Value} {d : Nat} :
  depthItems vs ≤ d ↔ ∀ v ∈ vs, v.depth ≤ d
  := by
  induction vs with
  | nil => simp [depthItems]
  | cons v vs ih => rw [depthItems, Nat.max_le, ih, List.forall_mem_cons]

theorem depthFields_le_iff {fs : List (String × Value)} {d : Nat} :
  depthFields fs ≤ d ↔ ∀ f ∈ fs, f.2.depth ≤ d
  := by
  induction fs with
  | nil => simp [depthFields]
  | cons f fs ih => rw [depthFields, Nat.max_le, ih, List.forall_mem_cons]

theorem depth_list_le_iff {vs : List Value} {d : Nat} :
  (list vs).depth ≤ d + 1 ↔ ∀ v ∈ vs, v.depth ≤ d
  := by
  rw [depth, Nat.add_le_add_iff_right, depthItems_le_iff]

theorem depth_record_le_iff {fs : List (String × Value)} {d : Nat} :
  (record fs).depth ≤ d + 1 ↔ ∀ f ∈ fs, f.2.depth ≤ d
  := by
  rw [depth, Nat.add_le_add_iff_right, depthFields_le_iff]

end Value

/-- Any value is read from a list if any value is read from each of its items. -/
theorem Decode.any_list {vs : List Value} (h : ∀ v ∈ vs, v.isReadable = true) :
  Decode.any (.list vs) = some (.list (vs.map Value.settle))
  := by
  simp [Decode.any, Value.isReadable, Value.areReadable_iff.mpr h, Value.settle,
    Value.settleItems_eq_map]

end CorpusAudit
