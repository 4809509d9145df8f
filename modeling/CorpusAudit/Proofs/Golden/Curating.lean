import CorpusAudit.Golden.Curation
import CorpusAudit.Proofs.Golden.Codes
import CorpusAudit.Proofs.Ranking

/-!
# Curation is greedy

For each target in turn the first records in the ranking are picked of those that have the
error code and were not picked before (`IsGreedy`).  So no record is picked twice, the
order in which the records are given does not matter, and further targets leave the picks
for the first ones as they are (`curate_isGreedy`).
-/

namespace CorpusAudit

/-! ### Rankings -/

namespace Ranking

/-- The order of a ranking: fewer errors first, where they count, then identifiers. -/
def Precedes : Ranking → Record → Record → Prop
  | .isolatedFirst, a, b => a.errorCodes.length < b.errorCodes.length
    ∨ a.errorCodes.length = b.errorCodes.length ∧ a.id < b.id
  | .idOrder, a, b => a.id < b.id

theorem precedes_of_isBefore {k : Ranking} {a b : Record} (h : k.isBefore a b = true)
    (hid : a.id ≠ b.id) :
  k.Precedes a b
  := by
  cases k with
  | isolatedFirst =>
    simp only [isBefore, Bool.or_eq_true, Bool.and_eq_true, decide_eq_true_eq] at h
    exact h.imp_right fun hsame => ⟨hsame.1, lt_of_le_of_ne hsame.2 hid⟩
  | idOrder =>
    simp only [isBefore, decide_eq_true_eq] at h
    exact lt_of_le_of_ne h hid

/-- Records that are each before the other have one identifier. -/
theorem id_eq_of_isBefore {k : Ranking} {a b : Record} (hab : k.isBefore a b = true)
    (hba : k.isBefore b a = true) :
  a.id = b.id
  := by
  cases k with
  | isolatedFirst =>
    simp only [isBefore, Bool.or_eq_true, Bool.and_eq_true, decide_eq_true_eq] at hab hba
    grind
  | idOrder =>
    simp only [isBefore, decide_eq_true_eq] at hab hba
    exact le_antisymm hab hba

theorem isBefore_trans {k : Ranking} (a b c : Record) (hab : k.isBefore a b = true)
    (hbc : k.isBefore b c = true) :
  k.isBefore a c = true
  := by
  cases k with
  | isolatedFirst =>
    simp only [isBefore, Bool.or_eq_true, Bool.and_eq_true, decide_eq_true_eq] at hab hbc ⊢
    grind
  | idOrder =>
    simp only [isBefore, decide_eq_true_eq] at hab hbc ⊢
    exact hab.trans hbc

theorem isBefore_total {k : Ranking} (a b : Record) :
  (k.isBefore a b || k.isBefore b a) = true
  := by
  cases k with
  | isolatedFirst =>
    simp only [isBefore, Bool.or_eq_true, Bool.and_eq_true, decide_eq_true_eq]
    grind
  | idOrder =>
    simp only [isBefore, Bool.or_eq_true, decide_eq_true_eq]
    exact le_total a.id b.id

end Ranking

namespace Curator

variable {k : Ranking} {records : List Record} {used : List String} {ts : List Target}

/-! ### One target -/

/-- The first records in a ranking, of those that are eligible, up to a quota: a record that
is passed over comes after a full quota. -/
structure IsFirst (k : Ranking) (eligible : Record → Prop) (quota : Nat) (picked : List Record) :
    Prop where
  ascending : picked.Pairwise k.Precedes
  isEligible : ∀ r ∈ picked, eligible r
  length_le : picked.length ≤ quota
  passedOver : ∀ r, eligible r → r ∉ picked → picked.length = quota ∧ ∀ s ∈ picked, k.Precedes s r

theorem isFirst_take {rs : List Record} (h : rs.Pairwise k.Precedes) (quota : Nat) :
  IsFirst k (· ∈ rs) quota (rs.take quota)
  where
  ascending := h.take
  isEligible _ hr := List.mem_of_mem_take hr
  length_le := List.length_take_le quota rs
  passedOver _ hr hpicked := passedOver_take h hr hpicked

theorem candidates_perm (k : Ranking) (records : List Record) (code : String) :
  (candidates k records code).Perm (records.filter fun r => r.errorCodes.contains code)
  := List.mergeSort_perm _ _

theorem sorted_candidates (k : Ranking) (records : List Record) (code : String) :
  (candidates k records code).Pairwise fun a b => k.isBefore a b = true
  := List.pairwise_mergeSort Ranking.isBefore_trans Ranking.isBefore_total _

theorem mem_candidates {code : String} {r : Record} :
  r ∈ candidates k records code ↔ r ∈ records ∧ code ∈ r.errorCodes
  := by
  rw [(candidates_perm k records code).mem_iff]
  simp

theorem nodup_candidates (h : (records.map Record.id).Nodup) (code : String) :
  ((candidates k records code).map Record.id).Nodup
  := by
  rw [((candidates_perm k records code).map Record.id).nodup_iff]
  exact (List.filter_sublist.map Record.id).nodup h

/-- Records with different identifiers have one order in a ranking. -/
theorem pairwise_candidates (h : (records.map Record.id).Nodup) (code : String) :
  (candidates k records code).Pairwise k.Precedes
  := by
  exact (sorted_candidates k records code).imp₂ (fun _ _ => Ranking.precedes_of_isBefore)
    (List.pairwise_map.mp (nodup_candidates h code))

theorem candidates_congr (h : (records.map Record.id).Nodup) {records' : List Record}
    (hperm : records.Perm records') (code : String) :
  candidates k records' code = candidates k records code
  := by
  have hnodup := List.inj_on_of_nodup_map (nodup_candidates (k := k) h code)
  have hcandidates : (candidates k records' code).Perm (candidates k records code) :=
    (candidates_perm k records' code).trans
      ((hperm.symm.filter _).trans (candidates_perm k records code).symm)
  apply hcandidates.eq_of_pairwise _ (sorted_candidates k records' code)
    (sorted_candidates k records code)
  intro a b ha hb hab hba
  exact hnodup (hcandidates.mem_iff.mp ha) hb (Ranking.id_eq_of_isBefore hab hba)

/-- The records picked for a target are the first ones that have its code and are not used. -/
theorem isFirst_pick (h : (records.map Record.id).Nodup) (used : List String) (t : Target) :
  IsFirst k (fun r => r ∈ records ∧ t.code ∈ r.errorCodes ∧ r.id ∉ used) t.quota
    (pick k records used t)
  := by
  have hfirst := isFirst_take ((pairwise_candidates (k := k) h t.code).filter
    fun r => !used.contains r.id) t.quota
  have heligible (r : Record) : (r ∈ (candidates k records t.code).filter
      fun r => !used.contains r.id) ↔ r ∈ records ∧ t.code ∈ r.errorCodes ∧ r.id ∉ used := by
    simp [mem_candidates, and_assoc]
  rw [pick]
  simpa only [heligible] using hfirst

/-! ### All targets -/

/-- The records picked for targets, where `used` are the identifiers of the records that
were picked before. -/
def picksAfter (k : Ranking) (records : List Record) (used : List String) :
    List Target → List (Target × List Record)
  | [] => []
  | t :: ts => (t, pick k records used t)
    :: picksAfter k records ((pick k records used t).map Record.id ++ used) ts

theorem map_fst_picksAfter :
  (picksAfter k records used ts).map Prod.fst = ts
  := by
  induction ts generalizing used with
  | nil => rfl
  | cons t ts ih => rw [picksAfter, List.map_cons, ih]

/-- For each target the first records in the ranking were picked of those that have its code
and were not picked for an earlier target. -/
def IsGreedy (k : Ranking) (records : List Record) (picks : List (Target × List Record)) : Prop :=
  ∀ earlier t picked later, picks = earlier ++ (t, picked) :: later →
    IsFirst k (fun r => r ∈ records ∧ t.code ∈ r.errorCodes ∧ ∀ e ∈ earlier, r ∉ e.2) t.quota
      picked

/-- What is used when a target comes to its turn is what was picked for the targets before. -/
theorem exists_used {earlier later : List (Target × List Record)} {t : Target}
    {picked : List Record} (h : picksAfter k records used ts = earlier ++ (t, picked) :: later) :
  ∃ used', picked = pick k records used' t
    ∧ ∀ id, id ∈ used' ↔ id ∈ used ∨ ∃ e ∈ earlier, ∃ r ∈ e.2, r.id = id
  := by
  induction earlier generalizing used ts with
  | nil =>
    cases ts with
    | nil => simp [picksAfter] at h
    | cons u ts =>
      obtain ⟨⟨rfl, rfl⟩, -⟩ : (u = t ∧ pick k records used u = picked) ∧ _ := by
        simpa [picksAfter] using h
      exact ⟨used, rfl, by simp⟩
  | cons d earlier ih =>
    cases ts with
    | nil => simp [picksAfter] at h
    | cons u ts =>
      obtain ⟨rfl, hrest⟩ : (u, pick k records used u) = d ∧ _ := by
        simpa only [picksAfter, List.cons_append, List.cons.injEq] using h
      obtain ⟨used', hpicked, hused⟩ := ih hrest
      refine ⟨used', hpicked, ?_⟩
      intro id
      rw [hused, List.mem_append, List.mem_map, List.exists_mem_cons_iff, or_assoc]
      exact or_left_comm

theorem mem_of_mem_picksAfter {e : Target × List Record} (he : e ∈ picksAfter k records used ts)
    {r : Record} (hr : r ∈ e.2) :
  r ∈ records ∧ e.1.code ∈ r.errorCodes
  := by
  obtain ⟨earlier, later, hpicks⟩ := List.append_of_mem he
  obtain ⟨used', hpicked, -⟩ := exists_used hpicks
  rw [hpicked, pick] at hr
  exact mem_candidates.mp (List.mem_filter.mp (List.mem_of_mem_take hr)).1

theorem isGreedy_picksAfter (h : (records.map Record.id).Nodup) (ts : List Target) :
  IsGreedy k records (picksAfter k records [] ts)
  := by
  intro earlier t picked later hpicks
  obtain ⟨used, hpicked, hused⟩ := exists_used hpicks
  have heligible : (fun r : Record => r ∈ records ∧ t.code ∈ r.errorCodes ∧ r.id ∉ used)
      = fun r => r ∈ records ∧ t.code ∈ r.errorCodes ∧ ∀ e ∈ earlier, r ∉ e.2 := by
    funext r
    apply propext
    apply and_congr_right
    intro hr
    apply and_congr_right
    intro _
    -- a record is used if one with its identifier is, since there is no other one
    have hsame : (∃ e ∈ earlier, ∃ s ∈ e.2, s.id = r.id) ↔ ∃ e ∈ earlier, r ∈ e.2 := by
      constructor
      · rintro ⟨e, he, s, hs, hid⟩
        have hmem : e ∈ picksAfter k records [] ts := by
          rw [hpicks]
          exact List.mem_append_left _ he
        obtain rfl := List.inj_on_of_nodup_map h (mem_of_mem_picksAfter hmem hs).1 hr hid
        exact ⟨e, he, hs⟩
      · rintro ⟨e, he, hs⟩
        exact ⟨e, he, r, hs, rfl⟩
    simp [hused, hsame]
  rw [← heligible, hpicked]
  exact isFirst_pick h used t

/-- No record is picked twice. -/
theorem nodup_picksAfter (h : (records.map Record.id).Nodup) :
  (((picksAfter k records used ts).flatMap Prod.snd).map Record.id).Nodup
    ∧ ∀ r ∈ (picksAfter k records used ts).flatMap Prod.snd, r.id ∉ used
  := by
  induction ts generalizing used with
  | nil => simp [picksAfter]
  | cons t ts ih =>
    obtain ⟨hnodup, hunused⟩ := @ih ((pick k records used t).map Record.id ++ used)
    have hpick : ((pick k records used t).map Record.id).Nodup :=
      (((List.take_sublist _ _).trans List.filter_sublist).map Record.id).nodup
        (nodup_candidates h t.code)
    have hfresh := (isFirst_pick (k := k) h used t).isEligible
    rw [picksAfter, List.flatMap_cons, List.map_append]
    constructor
    · refine hpick.append hnodup ?_
      intro id hid hlater
      obtain ⟨r, hr, rfl⟩ := List.mem_map.mp hlater
      exact hunused r hr (List.mem_append_left _ hid)
    · intro r hr
      rcases List.mem_append.mp hr with hr | hr
      · exact (hfresh r hr).2.2
      · exact fun hused => hunused r hr (List.mem_append_right _ hused)

theorem picksAfter_congr (h : (records.map Record.id).Nodup) {records' : List Record}
    (hperm : records.Perm records') :
  picksAfter k records' used ts = picksAfter k records used ts
  := by
  induction ts generalizing used with
  | nil => rfl
  | cons t ts ih => rw [picksAfter, picksAfter, pick, candidates_congr h hperm, ← pick, ih]

theorem prefix_picksAfter {us : List Target} (h : ts <+: us) :
  picksAfter k records used ts <+: picksAfter k records used us
  := by
  induction ts generalizing used us with
  | nil => exact List.nil_prefix
  | cons t ts ih =>
    obtain ⟨us, rfl, hus⟩ := List.cons_prefix_iff.mp h
    exact List.cons_prefix_cons.mpr ⟨rfl, ih hus⟩

/-! ### Traces -/

theorem curateAfter_eq (k : Ranking) (records : List Record) (used : List String)
    (ts : List Target) :
  curateAfter k records used ts
    = (picksAfter k records used ts).flatMap fun e => e.2.mapIdx fun i r => trace e.1.code r i
  := by
  induction ts generalizing used with
  | nil => rfl
  | cons t ts ih =>
    rw [curateAfter, picksAfter, List.flatMap_cons, ← ih, List.mapIdx_eq_zipIdx_map]

theorem length_distinctCodes (r : Record) :
  r.distinctCodes.length = r.errorCodes.toFinset.card
  := by
  have hcodes : r.distinctCodes.toFinset = r.errorCodes.toFinset := by
    ext code
    rw [List.mem_toFinset, List.mem_toFinset, Record.mem_distinctCodes]
  rw [← hcodes, List.toFinset_card_of_nodup r.nodup_distinctCodes]

/-- A trace of a record with the code counts its other codes. -/
theorem trace_eq {code : String} {r : Record} (h : code ∈ r.errorCodes) (i : Nat) :
  trace code r i = ⟨code, r.id, i + 1, r.category, (r.errorCodes.toFinset.erase code).card⟩
  := by
  rw [trace, length_distinctCodes, Finset.card_erase_of_mem (List.mem_toFinset.mpr h)]

theorem map_recordId_traces (code : String) (picked : List Record) :
  (picked.mapIdx fun i r => trace code r i).map Trace.recordId = picked.map Record.id
  := by
  rw [List.mapIdx_eq_zipIdx_map, List.map_map]
  exact (List.map_map (f := Prod.fst) (g := Record.id)).symm.trans (by rw [List.zipIdx_map_fst])

/-- The traces are of the records that are picked greedily, with ranks from one on; no record
is picked twice, the order of the records does not matter, and further targets only add
traces. -/
theorem curate_isGreedy (c : Curator) {records : List Record}
    (h : (records.map Record.id).Nodup) :
  (∃ picks, picks.map Prod.fst = c.targets ∧ IsGreedy c.ranking records picks
      ∧ c.curate records = picks.flatMap fun e => e.2.mapIdx fun i r =>
        ⟨e.1.code, r.id, i + 1, r.category, (r.errorCodes.toFinset.erase e.1.code).card⟩)
    ∧ ((c.curate records).map Trace.recordId).Nodup
    ∧ (∀ records', records.Perm records' → c.curate records' = c.curate records)
    ∧ ∀ d : Curator, d.ranking = c.ranking → c.targets <+: d.targets →
      c.curate records <+: d.curate records
  := by
  refine ⟨⟨picksAfter c.ranking records [] c.targets, map_fst_picksAfter,
    isGreedy_picksAfter h c.targets, ?traces⟩, ?ids, ?order, ?targets⟩
  case traces =>
    rw [curate, curateAfter_eq]
    apply List.flatMap_congr
    intro e he
    rw [List.mapIdx_eq_zipIdx_map, List.mapIdx_eq_zipIdx_map]
    apply List.map_congr_left
    intro d hd
    exact trace_eq (mem_of_mem_picksAfter he (List.fst_mem_of_mem_zipIdx hd)).2 d.2
  case ids =>
    rw [curate, curateAfter_eq, List.map_flatMap]
    simp only [map_recordId_traces]
    rw [← List.map_flatMap]
    exact (nodup_picksAfter h).1
  case order =>
    intro records' hperm
    rw [curate, curate, curateAfter_eq, curateAfter_eq, picksAfter_congr h hperm]
  case targets =>
    intro d hranking htargets
    rw [curate, curate, curateAfter_eq, curateAfter_eq, hranking]
    exact (prefix_picksAfter htargets).flatMap _

/-- Targets for two codes. -/
def twoTargets : Curator :=
  ⟨[⟨"E0308", 1⟩, ⟨"E0433", 2⟩], .isolatedFirst, by decide⟩

/-- Records that share codes. -/
def sharedCodes : List Record :=
  [⟨"a", "x", true, some false, none, ["E0433", "E0308"], .empty⟩,
    ⟨"b", "x", true, some false, none, ["E0308"], .empty⟩,
    ⟨"c", "y", true, some false, none, ["E0433", "E0433"], .empty⟩]

/-- The record with one code is picked for it, so that the other two are left for the other
code. -/
theorem curate_isGreedy_shared_codes :
  (sharedCodes.map Record.id).Nodup
    ∧ twoTargets.curate sharedCodes
      = [⟨"E0308", "b", 1, "x", 0⟩, ⟨"E0433", "a", 1, "x", 1⟩, ⟨"E0433", "c", 2, "y", 0⟩]
    ∧ ∃ picks, picks.map Prod.fst = twoTargets.targets
      ∧ IsGreedy .isolatedFirst sharedCodes picks
  := by
  have hnodup : (sharedCodes.map Record.id).Nodup := by decide
  obtain ⟨picks, htargets, hgreedy, -⟩ := (curate_isGreedy twoTargets hnodup).1
  refine ⟨hnodup, ?_, picks, htargets, hgreedy⟩
  cbv

end Curator

end CorpusAudit
