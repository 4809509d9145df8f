import CorpusAudit.Proofs.Gate.Comparing
import CorpusAudit.Proofs.Gate.Policies
import CorpusAudit.Proofs.Label.Reloading
import CorpusAudit.Proofs.Report.Consistency

/-!
# Passing without a result

Whether a record passes is judged from what the compiler and the tests say, not from whether
there is a result, and the rows of a table may say one without the other.  So what passes was
transpiled exactly in the corpora without a record that compiles although it was not transpiled
(`LabeledCorpus.passesAreTranspiled_iff`).  One such record is enough for a corpus with more
passing records than results (`LabeledCorpus.passes_untranspiled`).
-/

namespace CorpusAudit

/-- The record passes, and there is no result. -/
def Record.passesUntranspiled (r : Record) : Bool :=
  !r.transpiled && r.isPassing

theorem Record.passesUntranspiled_iff {r : Record} :
  r.passesUntranspiled = true
    ↔ r.transpiled = false ∧ r.compiles = some true ∧ r.testsPass ≠ some false
  := by
  rw [passesUntranspiled, Bool.and_eq_true, Bool.not_eq_true', isPassing_iff]

/-- All that a report counts as passed was transpiled, and so was what makes a category pass
under the policy that one record is enough, and what passes in the snapshot of the records. -/
structure Report.PassesAreTranspiled (r : Report) (records : List Record) : Prop where
  counted : ∀ x ∈ records, PassCount.ofRecord x = ⟨1, 0⟩ → x.transpiled = true
  total : r.passed ≤ r.transpiled
  categories : ∀ category, (Snapshot.ofReport .any r).entries.find? category = some true →
    ∃ x ∈ records, x.category = category ∧ x.isPassing = true ∧ x.transpiled = true
  snapshot : ∀ x ∈ records, (Snapshot.ofRecords records).entries.find? x.id = some true →
    x.transpiled = true

theorem PassCount.ofRecord_eq_passed_iff {r : Record} :
  ofRecord r = ⟨1, 0⟩ ↔ r.isPassing = true
  := by
  cases h : r.isPassing <;> simp [ofRecord, h]

section Counting

variable (records : List Record)

/-- The records that pass, by whether they were transpiled. -/
theorem countP_isPassing :
  records.countP Record.isPassing
    = records.countP (fun r => r.transpiled && r.isPassing)
      + records.countP Record.passesUntranspiled
  := by
  rw [List.countP_eq_countP_filter_add records Record.isPassing Record.transpiled,
    List.countP_filter, List.countP_filter]
  simp only [Bool.and_comm]
  rfl

/-- The records that were transpiled, by whether they pass. -/
theorem countP_transpiled :
  records.countP Record.transpiled
    = records.countP (fun r => r.transpiled && r.isPassing)
      + records.countP (fun r => r.transpiled && !r.isPassing)
  := by
  rw [List.countP_eq_countP_filter_add records Record.transpiled Record.isPassing,
    List.countP_filter, List.countP_filter]

end Counting

namespace Report

variable {formula : Formula} {most : Nat} {c : LabeledCorpus} {now : Time.Instant}

theorem transpiled_aggregate :
  (aggregate formula most c now).transpiled = c.records.countP Record.transpiled
  := OutcomeCount.transpiled_count c.records

/-- More records pass than were transpiled if more pass without a result than do not pass with
one. -/
theorem passed_le_transpiled_iff :
  (aggregate formula most c now).passed ≤ (aggregate formula most c now).transpiled
    ↔ c.records.countP Record.passesUntranspiled
      ≤ c.records.countP fun r => r.transpiled && !r.isPassing
  := by
  rw [passed_aggregate, transpiled_aggregate, countP_isPassing, countP_transpiled]
  exact Nat.add_le_add_iff_left

/-- A category that passes under the policy that one record is enough has a record that
passes. -/
theorem exists_of_find?_any_aggregate {category : String}
    (h : (Snapshot.ofReport .any (aggregate formula most c now)).entries.find? category
      = some true) :
  ∃ r ∈ c.records, r.category = category ∧ r.isPassing = true
  := by
  rw [Snapshot.ofReport, Table.find?_filterMap, find?_byCategory_aggregate] at h
  split at h
  · rw [Option.bind_some, PassPolicy.status.eq_def] at h
    split at h
    · simp at h
    · have hpositive : 0 < (categoryRecords c category).countP Record.isPassing :=
        of_decide_eq_true (Option.some.inj h)
      obtain ⟨r, hr, hpasses⟩ := List.countP_pos_iff.mp hpositive
      obtain ⟨hr, hcategory⟩ := List.mem_filter.mp hr
      exact ⟨r, hr, of_decide_eq_true hcategory, hpasses⟩
  · simp at h

/-- A record that passes makes its category pass under the policy that one is enough. -/
theorem find?_any_aggregate (hfew : c.records.length < UInt64.size) {r : Record}
    (hr : r ∈ c.records) (hpasses : r.isPassing = true) :
  (Snapshot.ofReport .any (aggregate formula most c now)).entries.find? r.category = some true
  := by
  have hmem : r ∈ categoryRecords c r.category := by
    simp [categoryRecords, hr]
  rw [Snapshot.find?_ofReport_aggregate hfew]
  exact ⟨List.ne_nil_of_mem hmem, fun _ => ⟨r, hmem, hpasses⟩, fun _ => rfl⟩

end Report

namespace LabeledCorpus

/-- What passes was transpiled exactly if no record compiles, without failing its tests, that
was not transpiled: the report and the snapshots count such a record as one that passes. -/
theorem passesAreTranspiled_iff {rules : RuleSet} {source : Path} {limit : Float} {t u : Tree}
    {c : LabeledCorpus} (h : onTree (load rules source limit) t = (.ok c, u)) (formula : Formula)
    (most : Nat) (now : Time.Instant) :
  ((Report.aggregate formula most c now).PassesAreTranspiled c.records
      ↔ ∀ r ∈ c.records, ¬ (r.transpiled = false ∧ r.compiles = some true
        ∧ r.testsPass ≠ some false))
    ∧ ((Report.aggregate formula most c now).passed
        ≤ (Report.aggregate formula most c now).transpiled
      ↔ c.records.countP Record.passesUntranspiled
        ≤ c.records.countP fun r => r.transpiled && !r.isPassing)
    ∧ ∀ r ∈ c.records, r.passesUntranspiled = true →
      PassCount.ofRecord r = ⟨1, 0⟩
        ∧ (c.records.length < UInt64.size →
          (Snapshot.ofReport .any (Report.aggregate formula most c now)).entries.find? r.category
            = some true)
        ∧ (Snapshot.ofRecords c.records).entries.find? r.id = some true
  := by
  have hnodup : (c.records.map Record.id).Nodup := by
    obtain ⟨corpus, t', hcorpus, hrest⟩ := onTree_bind_eq_ok_iff.mp h
    obtain rfl : (⟨corpus, rules⟩ : LabeledCorpus) = c := by
      simpa using congrArg Prod.fst hrest
    exact Corpus.nodup_ids_of_load hcorpus
  have hsnapshot {r : Record} (hr : r ∈ c.records) (hpasses : r.isPassing = true) :
      (Snapshot.ofRecords c.records).entries.find? r.id = some true :=
    (Snapshot.find?_ofRecords hnodup).mpr ⟨r, hr, rfl, hpasses⟩
  refine ⟨⟨?only, ?none⟩, Report.passed_le_transpiled_iff, ?counted⟩
  case only =>
    intro hlaw r hr hpasses
    obtain ⟨huntranspiled, houtcome⟩ := hpasses
    have htranspiled := hlaw.counted r hr
      (PassCount.ofRecord_eq_passed_iff.mpr (r.isPassing_iff.mpr houtcome))
    simp [huntranspiled] at htranspiled
  case none =>
    intro hnone
    have htranspiled {r : Record} (hr : r ∈ c.records) (hpasses : r.isPassing = true) :
        r.transpiled = true := by
      rw [← Bool.not_eq_false]
      intro huntranspiled
      exact hnone r hr ⟨huntranspiled, r.isPassing_iff.mp hpasses⟩
    constructor
    · intro r hr hcounted
      exact htranspiled hr (PassCount.ofRecord_eq_passed_iff.mp hcounted)
    · have hzero : c.records.countP Record.passesUntranspiled = 0 := by
        rw [List.countP_eq_zero]
        intro r hr huntranspiled
        exact hnone r hr (Record.passesUntranspiled_iff.mp huntranspiled)
      rw [Report.passed_le_transpiled_iff, hzero]
      apply Nat.zero_le
    · intro category hcategory
      obtain ⟨r, hr, hname, hpasses⟩ := Report.exists_of_find?_any_aggregate hcategory
      exact ⟨r, hr, hname, hpasses, htranspiled hr hpasses⟩
    · intro r hr hfind
      obtain ⟨s, hs, hid, hpasses⟩ := (Snapshot.find?_ofRecords hnodup).mp hfind
      obtain rfl : s = r := List.inj_on_of_nodup_map hnodup hs hr hid
      exact htranspiled hr hpasses
  case counted =>
    intro r hr huntranspiled
    have hpasses : r.isPassing = true :=
      r.isPassing_iff.mpr (Record.passesUntranspiled_iff.mp huntranspiled).2
    exact ⟨PassCount.ofRecord_eq_passed_iff.mpr hpasses,
      fun hfew => Report.find?_any_aggregate hfew hr hpasses, hsnapshot hr hpasses⟩

/-- A table of one row: a program without a result, whose result compiles. -/
def untranspiledTable : Tree :=
  ⟨[(["rows.jsonl"], .file (Text.encode ("\x7b\"id\":\"a\",\"category\":\"b\",\"has_rust\":false,"
    ++ "\"compiles\":true,\"error_codes\":[],\"feature_flags\":\x7b\x7d\x7d")))]⟩

/-- The record of the row. -/
def untranspiledRecord : Record :=
  ⟨"a", "b", false, some true, none, [], .empty⟩

/-- The report on the table. -/
def untranspiledReport : Report :=
  .aggregate .tarantula 5 ⟨.ofRecords [untranspiledRecord], .default⟩ ⟨⟨2024, 1, 1⟩, 0, 0, 0, 0⟩

private theorem load_untranspiledTable :
  onTree (load .default ⟨"rows.jsonl"⟩ 0) untranspiledTable
    = (.ok ⟨.ofRecords [untranspiledRecord], .default⟩, untranspiledTable)
  := by
  have hcorpus : onTree (Corpus.load ⟨"rows.jsonl"⟩ 0) untranspiledTable
      = (.ok (.ofRecords [untranspiledRecord]), untranspiledTable) := by
    decide +kernel
  rw [load, onTree_bind, hcorpus]
  rfl

theorem passesAreTranspiled_iff_untranspiledTable :
  ¬ untranspiledReport.PassesAreTranspiled [untranspiledRecord]
  := by
  have hiff := (passesAreTranspiled_iff load_untranspiledTable .tarantula 5
    ⟨⟨2024, 1, 1⟩, 0, 0, 0, 0⟩).1
  intro hlaw
  exact hiff.mp hlaw untranspiledRecord List.mem_cons_self (by decide)

/-- The only record of the table passes, makes its category pass and was not transpiled: one
record passed, and none was transpiled. -/
theorem passes_untranspiled :
  onTree (load .default ⟨"rows.jsonl"⟩ 0) untranspiledTable
      = (.ok ⟨.ofRecords [untranspiledRecord], .default⟩, untranspiledTable)
    ∧ untranspiledRecord.transpiled = false
    ∧ untranspiledReport.passed = 1
    ∧ untranspiledReport.transpiled = 0
    ∧ (Snapshot.ofReport .any untranspiledReport).entries.find? "b" = some true
    ∧ (Snapshot.ofRecords [untranspiledRecord]).entries.find? "a" = some true
  := by
  refine ⟨load_untranspiledTable, ?_⟩
  decide +kernel

end LabeledCorpus

end CorpusAudit
