import CorpusAudit.Proofs.Sample.Selecting

/-!
# The size of a sample

The parts that are drawn of several categories are rounded one by one.  Rounding two parts
instead of their sum changes the result by one at most, and in one direction only.  So the
size of a sample is the rounded part of all records, up to one record for each category after
the first, and up to one more for each category of which one is drawn instead of none
(`Sampler.isNear_select`).
-/

namespace CorpusAudit

namespace Allocation

variable (a : Allocation) {fraction : Nat}

/-! ### Parts of several groups -/

/-- By so much several rounded parts may exceed all of them rounded together. -/
theorem sum_round_le {parts : List Nat} (h : parts ≠ []) :
  (parts.map a.round).sum + a.excess ≤ a.round parts.sum + parts.length * a.excess
  := by
  induction parts with
  | nil => exact absurd rfl h
  | cons k parts ih =>
    by_cases hnil : parts = []
    · simp [hnil]
    · have hrest := ih hnil
      have hadd := a.add_round_le k parts.sum
      rw [List.map_cons, List.sum_cons, List.sum_cons, List.length_cons, Nat.succ_mul]
      omega

/-- By so much several rounded parts may fall short of all of them rounded together. -/
theorem round_sum_le {parts : List Nat} (h : parts ≠ []) :
  a.round parts.sum + a.shortfall ≤ (parts.map a.round).sum + parts.length * a.shortfall
  := by
  induction parts with
  | nil => exact absurd rfl h
  | cons k parts ih =>
    by_cases hnil : parts = []
    · simp [hnil]
    · have hrest := ih hnil
      have hadd := a.round_add_le k parts.sum
      rw [List.map_cons, List.sum_cons, List.sum_cons, List.length_cons, Nat.succ_mul]
      omega

/-! ### Drawing of several groups -/

/-- The rounded part is drawn, unless it is nothing and one record is drawn instead. -/
theorem allocate_eq_round {n : Nat} (hn : n < UInt64.size) (h : fraction ≤ million)
    (hpart : 0 < a.round (n * fraction) ∨ a.atLeastOne = false) :
  a.allocate n fraction = a.round (n * fraction)
  := by
  rw [a.allocate_eq hn h, if_neg]
  rintro ⟨hzero, -, hleast⟩
  simp [hzero, hleast] at hpart

theorem allocate_between {n : Nat} (hn : n < UInt64.size) (h : fraction ≤ million) :
  a.round (n * fraction) ≤ a.allocate n fraction
    ∧ a.allocate n fraction ≤ a.round (n * fraction) + 1
  := by
  rw [a.allocate_eq hn h]
  split
  · next hnone => omega
  · omega

theorem one_le_allocate (hleast : a.atLeastOne = true) {n : Nat} (hn : n < UInt64.size)
    (h : fraction ≤ million) (hpos : 0 < n) :
  1 ≤ a.allocate n fraction
  := by
  rw [a.allocate_eq hn h]
  grind

/-- Something that is rounded up is not nothing. -/
theorem round_pos (hceil : a.rounding = .ceil) {k : Nat} (hk : 0 < k) :
  0 < a.round k
  := by
  rw [round, hceil]
  simp only [million]
  omega

/-- Of `n` records in some groups about as many are drawn as a fraction in millionths asks for:
the exact part of all of them, rounded, up to one record a group. -/
structure IsNear (fraction n groups drawn : Nat) : Prop where
  ceil : a.rounding = .ceil →
    ⌈(n * fraction : ℚ) / million⌉₊ ≤ drawn
      ∧ drawn ≤ ⌈(n * fraction : ℚ) / million⌉₊ + (groups - 1)
  floor : a.rounding = .floor → a.atLeastOne = false →
    ⌊(n * fraction : ℚ) / million⌋₊ - (groups - 1) ≤ drawn
      ∧ drawn ≤ ⌊(n * fraction : ℚ) / million⌋₊
  floorAtLeastOne : a.rounding = .floor → a.atLeastOne = true →
    max groups (⌊(n * fraction : ℚ) / million⌋₊ - (groups - 1)) ≤ drawn
      ∧ drawn ≤ ⌊(n * fraction : ℚ) / million⌋₊ + groups

variable {sizes : List Nat}

theorem sum_allocate_eq (hsizes : ∀ n ∈ sizes, n < UInt64.size) (h : fraction ≤ million)
    (hpart : ∀ n ∈ sizes, 0 < a.round (n * fraction) ∨ a.atLeastOne = false) :
  (sizes.map fun n => a.allocate n fraction).sum
    = ((sizes.map (· * fraction)).map a.round).sum
  := by
  rw [List.map_map]
  congr 1
  apply List.map_congr_left
  intro n hn
  exact a.allocate_eq_round (hsizes n hn) h (hpart n hn)

theorem sum_allocate_between (hsizes : ∀ n ∈ sizes, n < UInt64.size) (h : fraction ≤ million) :
  ((sizes.map (· * fraction)).map a.round).sum ≤ (sizes.map fun n => a.allocate n fraction).sum
    ∧ (sizes.map fun n => a.allocate n fraction).sum
      ≤ ((sizes.map (· * fraction)).map a.round).sum + sizes.length
  := by
  induction sizes with
  | nil => simp
  | cons n sizes ih =>
    obtain ⟨hn, hsizes⟩ := List.forall_mem_cons.mp hsizes
    have hfirst := a.allocate_between hn h
    have hrest := ih hsizes
    simp only [List.map_cons, List.sum_cons, List.length_cons]
    omega

/-- What is drawn of several groups is about the part of all of them. -/
theorem isNear_sum_allocate (hne : sizes ≠ []) (hsizes : ∀ n ∈ sizes, 0 < n ∧ n < UInt64.size)
    (hleast : 0 < fraction) (hmost : fraction ≤ million) :
  a.IsNear fraction sizes.sum sizes.length (sizes.map fun n => a.allocate n fraction).sum
  := by
  have hfew : ∀ n ∈ sizes, n < UInt64.size := fun n hn => (hsizes n hn).2
  have hparts : sizes.map (· * fraction) ≠ [] := by simpa using hne
  have hupper := a.sum_round_le hparts
  have hlower := a.round_sum_le hparts
  rw [List.sum_map_mul_right, List.map_id', List.length_map, round_eq_share, share] at hupper hlower
  rw [excess] at hupper
  rw [shortfall] at hlower
  constructor
  case ceil =>
    intro hceil
    have hpart : ∀ n ∈ sizes, 0 < a.round (n * fraction) ∨ a.atLeastOne = false := by
      intro n hn
      exact .inl (a.round_pos hceil (Nat.mul_pos (hsizes n hn).1 hleast))
    rw [a.sum_allocate_eq hfew hmost hpart]
    simp only [hceil] at hupper hlower
    omega
  case floor =>
    intro hfloor hnone
    rw [a.sum_allocate_eq hfew hmost fun _ _ => .inr hnone]
    simp only [hfloor] at hupper hlower
    omega
  case floorAtLeastOne =>
    intro hfloor hone
    have hgroups : sizes.length ≤ (sizes.map fun n => a.allocate n fraction).sum := by
      have hall := List.card_nsmul_le_sum (sizes.map fun n => a.allocate n fraction) 1
        (by
          intro k hk
          obtain ⟨n, hn, rfl⟩ := List.mem_map.mp hk
          exact a.one_le_allocate hone (hfew n hn) hmost (hsizes n hn).1)
      simpa using hall
    have hdrawn := a.sum_allocate_between hfew hmost
    simp only [hfloor] at hupper hlower
    omega

end Allocation

namespace Selection

variable (records : List Record)

/-! ### The sizes of categories -/

/-- The numbers of records of the categories. -/
def sizes : List Nat :=
  (strata records).values.map List.length

theorem sum_sizes :
  (sizes records).sum = records.length
  := by
  rw [sizes, strata, Table.values, Table.map, List.map_map, List.map_map]
  simp only [Function.comp_def, List.length_map]
  rw [← Table.sum_length_groupBy Record.category records, Table.values, List.map_map]
  rfl

/-- There is a size for every category of the records. -/
theorem length_sizes :
  (sizes records).length = (records.map Record.category).dedup.length
  := by
  have hkeys : (strata records).keys.Perm (records.map Record.category).dedup := by
    apply (List.perm_ext_iff_of_nodup (Table.nodup_keys (strata records)) (List.nodup_dedup _)).mpr
    intro category
    rw [← Table.keys, ← Table.isSome_find?, find?_strata, List.mem_dedup]
    simp [idsOf]
  rw [← hkeys.length_eq]
  simp [sizes, Table.values, Table.keys]

theorem mem_sizes {records : List Record} {n : Nat} (h : n ∈ sizes records) :
  0 < n ∧ n ≤ records.length
  := by
  constructor
  · simp only [sizes, Table.values, List.map_map, List.mem_map] at h
    obtain ⟨e, he, rfl⟩ := h
    exact List.length_pos_iff.mpr (mem_strata.mp he).1
  · rw [← sum_sizes]
    exact List.le_sum_of_mem h

theorem values_counts (a : Allocation) (fraction : Nat) (streams : String → Random.Stream) :
  (ofRecords a fraction streams records).counts.values
    = (sizes records).map fun n => a.allocate n fraction
  := by
  rw [counts_ofRecords, sizes, Table.values, Table.values, Table.map, List.map_map, List.map_map,
    List.map_map]
  rfl

end Selection

/-- A sample of records has about as many identifiers as the fraction says, whatever the seed. -/
theorem Sampler.isNear_select (s : Sampler) {records : List Record} (hrecords : records ≠ [])
    (hfew : records.length < UInt64.size) (hleast : 0 < s.millionths)
    (hmost : s.millionths ≤ Allocation.million) :
  s.allocation.IsNear s.millionths records.length (records.map Record.category).dedup.length
    (s.select records).ids.length
  := by
  have hlength : (s.select records).ids.length
      = ((Selection.sizes records).map fun n => s.allocation.allocate n s.millionths).sum := by
    rw [select, Selection.length_ids, Selection.values_counts]
  have hne : Selection.sizes records ≠ [] := by
    intro hnil
    have hsum := Selection.sum_sizes records
    rw [hnil, List.sum_nil] at hsum
    exact hrecords (List.length_eq_zero_iff.mp hsum.symm)
  rw [hlength, ← Selection.length_sizes, ← Selection.sum_sizes]
  apply Allocation.isNear_sum_allocate _ hne _ hleast hmost
  intro n hn
  obtain ⟨hpos, hle⟩ := Selection.mem_sizes hn
  exact ⟨hpos, Nat.lt_of_le_of_lt hle hfew⟩

/-- Half of three records, rounded down, is one, but one is drawn of each of their two
categories. -/
theorem Sampler.isNear_select_three_records :
  let s : Sampler := ⟨0.5, 500000, 42, ⟨.floor, true⟩⟩
  Selection.threeRecords ≠ [] ∧ s.allocation.IsNear 500000 3 2
      (s.select Selection.threeRecords).ids.length
    ∧ 2 ≤ (s.select Selection.threeRecords).ids.length
    ∧ (s.select Selection.threeRecords).ids.length ≤ 3
  := by
  have hne : Selection.threeRecords ≠ [] := by decide
  have hnear : (⟨.floor, true⟩ : Allocation).IsNear 500000 3 2 _ :=
    isNear_select ⟨0.5, 500000, 42, ⟨.floor, true⟩⟩ hne (by decide) (by decide) (by decide)
  have hpart : ⌊(((3 : ℕ) : ℚ) * (500000 : ℕ)) / Allocation.million⌋₊ = 1 := by
    norm_num [Allocation.million]
  obtain ⟨hleast, hmost⟩ := hnear.floorAtLeastOne rfl rfl
  rw [hpart] at hleast hmost
  exact ⟨hne, hnear, hleast, hmost⟩

end CorpusAudit
