import CorpusAudit.Label.Basic
import CorpusAudit.Proofs.Corpus.Collecting
import CorpusAudit.Proofs.Corpus.Layouts
import CorpusAudit.Proofs.Feature
import CorpusAudit.Proofs.Json.Writing

/-!
# Rows of labelled records

The row of a labelled record is a document without numbers, so it is read back as it was
written.  The columns of the label are passed over when it is read as a record, which
gives the record again.
-/

namespace CorpusAudit

open Json (Kept)

/-! ### Written rows -/

theorem Record.kept_columns (r : Record) :
  ∀ f ∈ r.columns, Kept 1 f.2
  := by
  have hcodes : Kept 1 (.list (r.errorCodes.map .text)) := by
    apply Kept.list
    intro v hv
    obtain ⟨s, -, rfl⟩ := List.mem_map.mp hv
    exact Kept.text s
  have hfeatures : Kept 1 r.features.toValue := by
    apply Kept.record
    intro f hf
    obtain ⟨g, -, rfl⟩ := List.mem_map.mp hf
    exact Kept.bool _
  simp only [columns, List.forall_mem_cons, List.not_mem_nil, false_implies, implies_true,
    and_true]
  exact ⟨Kept.text _, Kept.text _, Kept.bool _, Kept.ofOption Kept.bool _,
    Kept.ofOption Kept.bool _, hcodes, hfeatures⟩

namespace LabeledCorpus

/-- The fields of the row of a labelled record. -/
def rowFields (rules : RuleSet) (r : Record) : List (String × Value) :=
  r.columns ++ [("risk_tier", (rules.label r).tier.toValue),
    ("matched_rule", .text (rules.label r).rule)]

theorem kept_row (rules : RuleSet) (r : Record) :
  Kept 2 (row rules r)
  := by
  apply Kept.record
  intro f hf
  rcases List.mem_append.mp hf with hf | hf
  · exact r.kept_columns f hf
  · simp only [List.mem_cons, List.not_mem_nil, or_false] at hf
    rcases hf with rfl | rfl
    · exact Kept.text _
    · exact Kept.text _

/-- A row is read back from its line. -/
theorem ofBytes?_row (rules : RuleSet) (r : Record) :
  Json.ofBytes? (Text.encode (String.ofList (Json.compact (row rules r)))) = some (row rules r)
  := by
  have hkept := kept_row rules r
  have hmax : Kept Json.maxDepth (row rules r) :=
    ⟨hkept.reread, hkept.isReadable, Nat.le_trans hkept.depth (by decide)⟩
  exact hmax.ofBytes?_compact

/-- What a row is as a line of a table. -/
theorem rowOfText_row (rules : RuleSet) (r : Record) :
  Corpus.rowOfText (String.ofList (Json.compact (row rules r))) = some (row rules r).settle
  := by
  rw [Corpus.rowOfText, ofBytes?_row, Option.bind_some, Decode.any,
    if_pos (kept_row rules r).isReadable]

/-! ### Rows that are read -/

/-- The columns of a row, each settled. -/
def settledFields (rules : RuleSet) (r : Record) : List (String × Value) :=
  (rowFields rules r).map fun f => (f.1, f.2.settle)

theorem settle_row (rules : RuleSet) (r : Record) :
  (row rules r).settle = .record (Table.ofList (settledFields rules r)).entries
  := by
  rw [row, Value.settle, Value.settleFields_eq_map]
  rfl

theorem names_settledFields (rules : RuleSet) (r : Record) :
  (settledFields rules r).map (·.1) = ["id", "category", "has_rust", "compiles", "tests_pass",
    "error_codes", "feature_flags", "risk_tier", "matched_rule"]
  := rfl

theorem nodup_names_settledFields (rules : RuleSet) (r : Record) :
  ((settledFields rules r).map (·.1)).Nodup
  := by
  rw [names_settledFields]
  decide +kernel

/-- The columns of a settled row. -/
theorem lookup_settle_row {rules : RuleSet} {r : Record} {n : String} {v : Value}
    (h : (n, v) ∈ settledFields rules r) :
  Table.lookup n (Table.ofList (settledFields rules r)).entries = some v
  := by
  have hnodup := nodup_names_settledFields rules r
  rw [← Table.find?, Table.find?_ofList_of_nodup hnodup, Table.lookup_eq_some_iff hnodup]
  exact h

theorem hasColumn_settle_row (rules : RuleSet) (r : Record) (c : Column) :
  Row.hasColumn (Table.ofList (settledFields rules r)).entries c = true
    ↔ c.name ∈ (settledFields rules r).map (·.1)
  := by
  rw [← Table.mem_keys_ofList]
  simp [Row.hasColumn, Value.hasField]

/-- The columns of a record, each settled. -/
theorem mem_settledFields (rules : RuleSet) (r : Record) :
  ("id", .text r.id) ∈ settledFields rules r
    ∧ ("category", .text r.category) ∈ settledFields rules r
    ∧ ("has_rust", .bool r.transpiled) ∈ settledFields rules r
    ∧ ("compiles", .ofOption .bool r.compiles) ∈ settledFields rules r
    ∧ ("tests_pass", .ofOption .bool r.testsPass) ∈ settledFields rules r
    ∧ ("error_codes", .list (r.errorCodes.map .text)) ∈ settledFields rules r
    ∧ ("feature_flags", .record (Table.ofList r.features.columns).entries)
      ∈ settledFields rules r
  := by
  have hoption (b : Option Bool) : (Value.ofOption .bool b).settle = .ofOption .bool b := by
    cases b <;> rfl
  have hcodes : Value.settleItems (r.errorCodes.map .text) = r.errorCodes.map .text := by
    rw [Value.settleItems_eq_map, List.map_map]
    rfl
  have hfeatures : r.features.toValue.settle
      = .record (Table.ofList r.features.columns).entries := by
    rw [FeatureSet.toValue, Value.settle, Value.settleFields_eq_map, List.map_map]
    rfl
  simp [settledFields, rowFields, Record.columns, hoption, hcodes, hfeatures, Value.settle]

/-- The row of a labelled record holds the record. -/
theorem holds_row (rules : RuleSet) (r : Record) :
  Row.Holds (some (row rules r).settle) r
  := by
  refine ⟨_, congrArg some (settle_row rules r), ?_, ?_, ?_⟩
  · intro c hc
    rw [hasColumn_settle_row, names_settledFields]
    simp only [Column.required, List.mem_cons, List.not_mem_nil, or_false] at hc
    rcases hc with rfl | rfl | rfl | rfl <;> decide +kernel
  · left
    rw [hasColumn_settle_row, names_settledFields]
    decide +kernel
  · obtain ⟨hid, hcategory, htranspiled, hcompiles, htests, hcodes, hfeatures⟩ :=
      mem_settledFields rules r
    obtain ⟨given, hgiven, -, hfind⟩ := Decode.fields_record .json ["id", "category", "has_rust",
      "compiles", "tests_pass", "error_codes", "feature_flags", "python_code"] true
      (Table.nodup_keys (Table.ofList (settledFields rules r))) (Or.inl rfl)
    have hfound {n : String} {v : Value} (hn : n ∈ ["id", "category", "has_rust", "compiles",
        "tests_pass", "error_codes", "feature_flags", "python_code"])
        (h : (n, v) ∈ settledFields rules r) : given.find? n = some v := by
      rw [hfind n hn, lookup_settle_row h]
    have hsource : given.find? "python_code" = none := by
      rw [hfind _ (by simp), ← Option.not_isSome_iff_eq_none, Table.lookup_isSome_iff,
        Table.mem_keys_ofList, names_settledFields]
      decide +kernel
    have hbool (b : Option Bool) : Decode.option Decode.bool (.ofOption .bool b) = some b := by
      apply Decode.option_ofOption
      intro a
      exact ⟨by simp, rfl⟩
    have hlist : Decode.option (Decode.list Decode.text) (.list (r.errorCodes.map .text))
        = some (some r.errorCodes) := by
      rw [Decode.option, Decode.list_text]
      · rfl
      · simp
    have hset : Decode.option FeatureSet.decode
        (.record (Table.ofList r.features.columns).entries) = some (some r.features) := by
      rw [Decode.option, FeatureSet.decode_table]
      · rfl
      · simp
    rw [Row.decode, hgiven]
    simp [Decode.Fields.required, Decode.Fields.orElse, Decode.Fields.optional,
      hfound (by simp) hid, hfound (by simp) hcategory, hfound (by simp) htranspiled,
      hfound (by simp) hcompiles, hfound (by simp) htests, hfound (by simp) hcodes,
      hfound (by simp) hfeatures, hsource, hbool, hlist, hset, Decode.text, Decode.bool]

end LabeledCorpus

end CorpusAudit
