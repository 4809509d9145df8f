import CorpusAudit.Proofs.Float.Magnitude
import CorpusAudit.Proofs.Tally
import CorpusAudit.Suspicion.Spectrum

/-!
# Spectra as numbers of records

The counts of a spectrum are the numbers of the records with each outcome and feature; the
records may be counted in any order and by several workers.  Computed from counts of 64
bits, a score is zero or far from the ends of the range of floating-point numbers.
-/

namespace CorpusAudit

namespace Spectrum

theorem totalFailed_collect (records : List Record) :
  (collect records).totalFailed = records.countP fun r => r.outcome = some .fail
  := by
  apply tally.count_eq_countP rfl
  intro s r
  simp only [tally, observe]
  split <;> simp_all

theorem totalPassed_collect (records : List Record) :
  (collect records).totalPassed = records.countP fun r => r.outcome = some .pass
  := by
  apply tally.count_eq_countP rfl
  intro s r
  simp only [tally, observe]
  split <;> simp_all

theorem get_bump (counts : Vector Nat 13) (s : FeatureSet) (i : Fin 13) :
  (bump counts s).get i = counts.get i + if s.has (Feature.ofIndex i) then 1 else 0
  := by
  show (bump counts s)[i.val] = _
  rw [bump, Vector.getElem_ofFn]

theorem failedWith_collect (records : List Record) (i : Fin 13) :
  (collect records).failedWith.get i
    = records.countP fun r => r.outcome = some .fail && r.features.has (Feature.ofIndex i)
  := by
  have hzero : zero.failedWith.get i = 0 := Vector.getElem_replicate i.isLt
  apply tally.count_eq_countP (f := fun s => s.failedWith.get i) hzero
  intro s r
  simp only [tally, observe]
  split <;> simp_all [get_bump]

theorem passedWith_collect (records : List Record) (i : Fin 13) :
  (collect records).passedWith.get i
    = records.countP fun r => r.outcome = some .pass && r.features.has (Feature.ofIndex i)
  := by
  have hzero : zero.passedWith.get i = 0 := Vector.getElem_replicate i.isLt
  apply tally.count_eq_countP (f := fun s => s.passedWith.get i) hzero
  intro s r
  simp only [tally, observe]
  split <;> simp_all [get_bump]

/-! ### Merging -/

theorem getElem_bump (counts : Vector Nat 13) (s : FeatureSet) (i : Nat) (h : i < 13) :
  (bump counts s)[i] = counts[i] + if s.has (Feature.ofIndex ⟨i, h⟩) then 1 else 0
  := get_bump counts s ⟨i, h⟩

theorem bump_comm (counts : Vector Nat 13) (s s' : FeatureSet) :
  bump (bump counts s) s' = bump (bump counts s') s
  := by
  ext i hi
  simp only [getElem_bump]
  apply Nat.add_right_comm

/-- A program may be counted before or after the counts of two groups are added. -/
theorem zipWith_bump (counts counts' : Vector Nat 13) (s : FeatureSet) :
  counts.zipWith (· + ·) (bump counts' s) = bump (counts.zipWith (· + ·) counts') s
  := by
  ext i hi
  simp only [getElem_bump, Vector.getElem_zipWith]
  symm
  apply Nat.add_assoc

theorem zipWith_zero (counts : Vector Nat 13) :
  counts.zipWith (· + ·) (Vector.replicate 13 0) = counts
  := by
  ext i hi
  simp

/-- A record may be counted before or after the counts of two groups are added. -/
theorem merge_observe (s s' : Spectrum) (r : Record) :
  s.merge (s'.observe r) = (s.merge s').observe r
  := by
  simp only [merge, observe]
  split
  · simp only [zipWith_bump, Nat.add_assoc]
  · simp only [zipWith_bump, Nat.add_assoc]
  · rfl

theorem observe_comm (s : Spectrum) (r r' : Record) :
  (s.observe r).observe r' = (s.observe r').observe r
  := by
  simp only [observe]
  cases r.outcome with
  | none => rfl
  | some o =>
    cases r'.outcome with
    | none => rfl
    | some o' =>
      have hfailed := bump_comm s.failedWith r.features r'.features
      have hpassed := bump_comm s.passedWith r.features r'.features
      cases o <;> cases o' <;> simp only [hfailed, hpassed]

/-- Records may be counted by several workers, and in any order. -/
theorem isMergeable_tally :
  tally.IsMergeable
  where
    merge_zero s := by simp only [tally, merge, zero, zipWith_zero, Nat.add_zero]
    merge_observe := merge_observe
    observe_comm := observe_comm

end Spectrum

/-! ### Counts of one feature -/

namespace FeatureCount

/-- The counts of a feature over records. -/
def ofRecords (records : List Record) (f : Feature) : FeatureCount where
  failedWith := records.countP fun r => r.outcome = some .fail && r.features.has f
  passedWith := records.countP fun r => r.outcome = some .pass && r.features.has f
  totalFailed := records.countP fun r => r.outcome = some .fail
  totalPassed := records.countP fun r => r.outcome = some .pass

/-- All counts fit in 64 bits. -/
structure IsSmall (n : FeatureCount) : Prop where
  failedWith : n.failedWith < UInt64.size
  passedWith : n.passedWith < UInt64.size
  totalFailed : n.totalFailed < UInt64.size
  totalPassed : n.totalPassed < UInt64.size

theorem isSmall_ofRecords {records : List Record} (h : records.length < UInt64.size)
    (f : Feature) :
  (ofRecords records f).IsSmall
  where
    failedWith := Nat.lt_of_le_of_lt List.countP_le_length h
    passedWith := Nat.lt_of_le_of_lt List.countP_le_length h
    totalFailed := Nat.lt_of_le_of_lt List.countP_le_length h
    totalPassed := Nat.lt_of_le_of_lt List.countP_le_length h

end FeatureCount

theorem Spectrum.feature_collect (records : List Record) (f : Feature) :
  (collect records).feature f = .ofRecords records f
  := by
  simp only [feature, FeatureCount.ofRecords, totalFailed_collect, totalPassed_collect,
    failedWith_collect, passedWith_collect, Feature.ofIndex_index]

/-! ### Scores -/

namespace FeatureCount

theorem isWithin_zero :
  IsWithin 1 67 0
  := Or.inl unpacked_zero

theorem isWithin_share {part total : Nat} (hpart : part < UInt64.size)
    (htotal : total < UInt64.size) :
  IsWithin (-66) 68 (share part total)
  := by
  rw [share]
  split
  · exact isWithin_mono isWithin_zero (by decide) (by decide)
  · next h =>
    exact isWithin_div (isWithin_ofNat hpart) (isBetween_ofNat (Nat.pos_of_ne_zero h) htotal)
      (by decide)

/-- A score is zero or far from the ends of the range. -/
theorem isWithin_score {n : FeatureCount} (h : n.IsSmall) (formula : Formula) :
  IsWithin (-200) 200 (n.score formula)
  := by
  have hzero : IsWithin (-200) 200 0 := isWithin_mono isWithin_zero (by decide) (by decide)
  have hfailed := isWithin_ofNat h.failedWith
  cases formula with
  | tarantula =>
    have hfailing := isWithin_share h.failedWith h.totalFailed
    have hpassing := isWithin_share h.passedWith h.totalPassed
    have hsum := isWithin_add hfailing hpassing (by decide)
    simp only [score]
    split
    · next hpos =>
      have hquotient := isWithin_div hfailing (isBetween_of_gt hsum hpos) (by decide)
      exact isWithin_mono hquotient (by decide) (by decide)
    · exact hzero
  | ochiai =>
    have hsum := isWithin_add hfailed (isWithin_ofNat h.passedWith) (by decide)
    have hproduct := isWithin_mul (isWithin_ofNat h.totalFailed) hsum (by decide)
    have hscale := isWithin_sqrt hproduct (by decide)
    simp only [score]
    split
    · next hpos =>
      have hquotient := isWithin_div hfailed (isBetween_of_gt hscale hpos) (by decide)
      exact isWithin_mono hquotient (by decide) (by decide)
    · exact hzero

end FeatureCount

end CorpusAudit
