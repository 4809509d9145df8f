import CorpusAudit.Proofs.Label.Counting
import CorpusAudit.Proofs.Report.Counting
import CorpusAudit.Proofs.Report.Rereading
import CorpusAudit.Proofs.Suspicion.Spectra

/-!
# Reports on corpora

A report that is made from a corpus is read back from its document and has no fault.
Its categories are those of the records, with their counts.  Its grades are bands of the part
that passed: a greater part has no worse grade.
-/

namespace CorpusAudit

/-! ### Grades -/

namespace Grade

/-- Who passes at least as great a part has no worse grade. -/
theorem rank_ofCounts_le_of_mul_le {passed total passed' total' : Nat} (htotal : 0 < total)
    (htotal' : 0 < total') (h : passed * total' ≤ passed' * total) :
  (ofCounts passed' total').rank ≤ (ofCounts passed total).rank
  := by
  have hband {percent : Nat} (hpercent : percent * total ≤ passed * 100) :
      percent * total' ≤ passed' * 100 := by
    apply Nat.le_of_mul_le_mul_right _ htotal
    calc percent * total' * total = percent * total * total' := Nat.mul_right_comm _ _ _
      _ ≤ passed * 100 * total' := Nat.mul_le_mul_right total' hpercent
      _ = passed * total' * 100 := Nat.mul_right_comm _ _ _
      _ ≤ passed' * total * 100 := Nat.mul_le_mul_right 100 h
      _ = passed' * 100 * total := Nat.mul_right_comm _ _ _
  have ha := @hband 95
  have hb := @hband 85
  have hc := @hband 70
  have hd := @hband 50
  -- the bands of the greater part are at the front
  simp only [ofCounts, if_neg htotal.ne', if_neg htotal'.ne']
  split_ifs <;> simp only [rank] <;> omega

/-- Of as many records, more that pass make no worse grade. -/
theorem rank_ofCounts_le {passed passed' : Nat} (h : passed ≤ passed') (total : Nat) :
  (ofCounts passed' total).rank ≤ (ofCounts passed total).rank
  := by
  rcases Nat.eq_zero_or_pos total with rfl | hpos
  · exact Nat.le_refl _
  · exact rank_ofCounts_le_of_mul_le hpos hpos (Nat.mul_le_mul_right total h)

theorem ofCounts_eq_notApplicable_iff {passed total : Nat} :
  ofCounts passed total = .notApplicable ↔ total = 0
  := by
  rw [ofCounts]
  split
  · next h => simp [h]
  · next h =>
    simp only [h, iff_false]
    split_ifs <;> simp

theorem meets_iff {g least : Grade} :
  g.meets least = true ↔ g ≠ .notApplicable ∧ g.rank ≤ least.rank
  := by
  simp [meets]

end Grade

/-! ### Rates and scores -/

theorem isFinite_passRate? {passed total : Nat} (hpassed : passed < UInt64.size)
    (htotal : total < UInt64.size) :
  ∀ x ∈ passRate? passed total, x.isFinite = true
  := by
  intro x hx
  rw [passRate?] at hx
  split at hx
  · simp at hx
  · next h =>
    obtain rfl : Float.ofNat passed / Float.ofNat total = x := by simpa using hx
    exact isFinite_of_isWithin (isWithin_div (isWithin_ofNat hpassed)
      (isBetween_ofNat (Nat.pos_of_ne_zero h) htotal) (by decide))

theorem CategoryResult.isWritable_ofCounts {passed failed : Nat}
    (h : passed + failed < UInt64.size) :
  (ofCounts passed failed).IsWritable
  where
    passed := Nat.lt_of_le_of_lt (Nat.le_add_right passed failed) h
    failed := Nat.lt_of_le_of_lt (Nat.le_add_left failed passed) h
    passRate := isFinite_passRate? (Nat.lt_of_le_of_lt (Nat.le_add_right passed failed) h) h

theorem CategoryResult.total_ofCounts {passed failed : Nat} (h : passed + failed < UInt64.size) :
  (ofCounts passed failed).total = passed + failed
  := Nat.mod_eq_of_lt h

theorem Suspicion.isWritable_of_mem {formula : Formula} {most : Nat} {records : List Record}
    (h : records.length < UInt64.size) {s : Suspicion}
    (hs : s ∈ Report.mostSuspicious formula most records) :
  s.IsWritable
  := by
  rw [Report.mostSuspicious, rankFeatures] at hs
  split at hs
  · next ranking hranking =>
    split at hranking
    · simp at hranking
    · obtain rfl : (Spectrum.collect records).rank formula = ranking := by simpa using hranking
      have hrank := List.mem_mergeSort.mp (List.mem_of_mem_take hs)
      obtain ⟨f, -, rfl⟩ := List.mem_map.mp hrank
      have hsmall := FeatureCount.isSmall_ofRecords h f
      simp only [Spectrum.suspicion, Spectrum.feature_collect]
      exact ⟨isFinite_of_isWithin (FeatureCount.isWithin_score hsmall formula),
        hsmall.failedWith, hsmall.passedWith, hsmall.totalFailed, hsmall.totalPassed⟩
  · simp at hs

/-! ### Categories -/

namespace Report

variable {formula : Formula} {most : Nat} {c : LabeledCorpus} {now : Time.Instant}

/-- The records of a category. -/
def categoryRecords (c : LabeledCorpus) (category : String) : List Record :=
  c.records.filter (·.category = category)

theorem any_category_iff (category : String) :
  c.records.any (·.category = category) = true ↔ categoryRecords c category ≠ []
  := by
  simp [categoryRecords]

/-- The records of a category are no more than those of the corpus. -/
theorem total_categoryRecords_lt (h : c.records.length < UInt64.size) (category : String) :
  (PassCount.ofRecords (categoryRecords c category)).total < UInt64.size
  := by
  rw [PassCount.total_ofRecords]
  exact Nat.lt_of_le_of_lt (List.length_filter_le _ _) h

/-- The result of a category is made of the counts of its records. -/
theorem find?_byCategory_aggregate (category : String) :
  (aggregate formula most c now).byCategory.find? category
    = if c.records.any (·.category = category) then
        let n := PassCount.ofRecords (categoryRecords c category)
        some (.ofCounts n.passed n.failed)
      else none
  := by
  show ((OutcomeCount.tally.count c.records).byCategory.map _).find? category = _
  rw [Table.find?_map, OutcomeCount.find?_byCategory_count]
  split <;> rfl

/-- A category of the report has records, and its result is made of their counts. -/
theorem of_mem_byCategory_aggregate {e : String × CategoryResult}
    (h : e ∈ (aggregate formula most c now).byCategory.entries) :
  categoryRecords c e.1 ≠ []
    ∧ e.2 = .ofCounts (PassCount.ofRecords (categoryRecords c e.1)).passed
      (PassCount.ofRecords (categoryRecords c e.1)).failed
  := by
  have hfind := Table.mem_entries_iff.mp h
  rw [find?_byCategory_aggregate] at hfind
  split at hfind
  · next hany => exact ⟨(any_category_iff e.1).mp hany, (Option.some.inj hfind).symm⟩
  · simp at hfind

/-- What a count of the categories comes to is what it is for all records. -/
theorem sum_byCategory_aggregate (size : PassCount → Nat) {size' : CategoryResult → Nat}
    (hsize : ∀ n : PassCount, size' (.ofCounts n.passed n.failed) = size n)
    (hzero : size ⟨0, 0⟩ = 0) (hadd : ∀ n n', size (n.add n') = size n + size n') :
  ((aggregate formula most c now).byCategory.values.map size').sum = size (.ofRecords c.records)
  := by
  rw [← OutcomeCount.sum_byCategory hzero hadd]
  show (((OutcomeCount.tally.count c.records).byCategory.map _).values.map size').sum = _
  simp only [Table.values, Table.map, List.map_map, Function.comp_def, hsize]

theorem total_aggregate :
  (aggregate formula most c now).total = c.records.length
  := by
  show (OutcomeCount.tally.count c.records).outcomes.total = _
  rw [OutcomeCount.outcomes_count, PassCount.total_ofRecords]

/-- The records of all categories together. -/
theorem sum_total_aggregate :
  ((aggregate formula most c now).byCategory.values.map fun n => n.passed + n.failed).sum
    = (aggregate formula most c now).total
  := by
  rw [sum_byCategory_aggregate PassCount.total (fun _ => rfl) rfl PassCount.total_add,
    PassCount.total_ofRecords, total_aggregate]

/-! ### Counts that agree -/

/-- However often the sum of the categories wraps around, it is what is left of the whole. -/
theorem categoryTotal_eq_mod (r : Report) :
  r.categoryTotal = (r.byCategory.values.map fun n => n.passed + n.failed).sum % UInt64.size
  := by
  rw [categoryTotal]
  induction r.byCategory.values with
  | nil => rfl
  | cons n values ih =>
    rw [List.foldr_cons, ih, CategoryResult.total, ← Nat.add_mod, List.map_cons, List.sum_cons]

/-- A report has no fault if its version is known and its counts agree, both sums up to a
multiple of what a word can count. -/
theorem faultOf?_eq_none_iff {r : Report} :
  r.faultOf? = none
    ↔ r.version ≤ reportVersion
      ∧ (r.passed + r.failed) % UInt64.size = r.total % UInt64.size
      ∧ (r.byCategory.values.map fun n => n.passed + n.failed).sum % UInt64.size
        = r.total % UInt64.size
  := by
  rw [← categoryTotal_eq_mod, faultOf?]
  split_ifs with hversion houtcomes hcategories
  · simp [Nat.not_le.mpr hversion]
  · simp [houtcomes]
  · simp [hcategories]
  · simp_all

/-- A report on no records that tells of 2^64 of them has no fault. -/
example :
  let r : Report := aggregate .tarantula 5 ⟨.ofRecords [], .default⟩ ⟨⟨2024, 1, 1⟩, 0, 0, 0, 0⟩
  ({ r with passed := 18446744073709551615, failed := 1 } : Report).faultOf? = none
  := by decide +kernel

/-- The counts of a report on a corpus agree. -/
theorem faultOf?_aggregate :
  (aggregate formula most c now).faultOf? = none
  := by
  rw [faultOf?_eq_none_iff, sum_total_aggregate]
  exact ⟨Nat.le_refl reportVersion, rfl, rfl⟩

theorem isWritable_byCategory (h : c.records.length < UInt64.size) :
  ∀ e ∈ (aggregate formula most c now).byCategory.entries, e.2.IsWritable
  := by
  intro e he
  rw [(of_mem_byCategory_aggregate he).2]
  exact CategoryResult.isWritable_ofCounts (total_categoryRecords_lt h e.1)

/-- A report on a corpus whose records can be counted in 64 bits is read back. -/
theorem isWritable_aggregate (h : c.records.length < UInt64.size) (hnow : now.IsValid) :
  (aggregate formula most c now).IsWritable
  := by
  have htotal : (aggregate formula most c now).total < UInt64.size := by
    rw [total_aggregate]
    exact h
  have houtcomes : (aggregate formula most c now).passed + (aggregate formula most c now).failed
      = (aggregate formula most c now).total := rfl
  have hpassed : (aggregate formula most c now).passed < UInt64.size := by omega
  constructor
  · exact (by decide : reportVersion < UInt32.size)
  · exact hnow
  · exact htotal
  · exact hpassed
  · omega
  · show (OutcomeCount.tally.count c.records).undetermined < UInt64.size
    rw [OutcomeCount.undetermined_count]
    exact Nat.lt_of_le_of_lt List.countP_le_length h
  · show (OutcomeCount.tally.count c.records).transpiled < UInt64.size
    rw [OutcomeCount.transpiled_count]
    exact Nat.lt_of_le_of_lt List.countP_le_length h
  · exact isFinite_passRate? hpassed htotal
  · exact isWritable_byCategory h
  · intro t k hk
    have hget : (aggregate formula most c now).risks.get t = some (c.statistics.ofTier t) :=
      ByTier.get_of _ t
    obtain rfl : c.statistics.ofTier t = k := by simpa [hget] using hk
    rw [c.ofTier_statistics]
    exact Nat.lt_of_le_of_lt List.countP_le_length h
  · intro s hs
    exact Suspicion.isWritable_of_mem h hs

/-! ### Reports that are read back -/

theorem faultOf?_reread (r : Report) :
  r.reread.faultOf? = r.faultOf?
  := by
  have hsum : r.reread.categoryTotal = r.categoryTotal := by
    show (r.byCategory.map CategoryResult.reread).values.foldr _ 0 = _
    simp only [categoryTotal, Table.values, Table.map, List.map_map, List.foldr_map]
    rfl
  rw [faultOf?, hsum]
  rfl

end Report

end CorpusAudit
