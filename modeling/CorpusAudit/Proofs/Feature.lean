import CorpusAudit.Feature.Basic
import CorpusAudit.Proofs.Decode

/-!
# Feature sets as values

A feature set is read back from its columns, in whatever order they are.
-/

namespace CorpusAudit

theorem Feature.mem_all (f : Feature) :
  f ∈ Feature.all.toList
  := by
  cases f <;> decide

theorem Feature.nodup_names :
  (Feature.all.toList.map Feature.name).Nodup
  := by
  decide +kernel

namespace FeatureSet

/-- The columns of a feature set. -/
def columns (s : FeatureSet) : List (String × Value) :=
  Feature.all.toList.map fun f => (f.name, .bool (s.has f))

theorem names_columns (s : FeatureSet) :
  s.columns.map (·.1) = Feature.all.toList.map Feature.name
  := by
  simp [columns]

/-- A feature set is read from a record that has its columns. -/
theorem decode_of_columns {s : FeatureSet} {fs : List (String × Value)}
    (hnodup : (fs.map (·.1)).Nodup)
    (hnames : ∀ n ∈ fs.map (·.1), n ∈ Feature.all.toList.map Feature.name)
    (hflags : ∀ f, Table.lookup f.name fs = some (.bool (s.has f))) :
  decode (.record fs) = some s
  := by
  obtain ⟨given, hgiven, -, hfind⟩ := Decode.fields_record .json _ false hnodup (Or.inr hnames)
  have horElse : (fun f : Feature => given.orElse f.name Decode.bool false)
      = fun f => pure (s.has f) := by
    funext f
    have hf : f.name ∈ Feature.all.toList.map Feature.name :=
      List.mem_map_of_mem (Feature.mem_all f)
    rw [Decode.Fields.orElse, hfind f.name hf, hflags f]
    rfl
  have hmap : (⟨Feature.all.map s.has⟩ : FeatureSet) = s := by
    apply ext_has
    intro f
    rw [has, Fin.getElem_fin, Vector.getElem_map]
    exact congrArg s.has (Feature.ofIndex_index f)
  rw [decode, hgiven]
  simp only [Option.bind_eq_bind, Option.bind_some, horElse, Vector.mapM_pure]
  exact congrArg some hmap

/-- A feature set is read back from the table of its columns. -/
theorem decode_table (s : FeatureSet) :
  decode (.record (Table.ofList s.columns).entries) = some s
  := by
  have hnodup : (s.columns.map (·.1)).Nodup := by
    rw [names_columns]
    exact Feature.nodup_names
  apply decode_of_columns (Table.nodup_keys _)
  · intro n hn
    rw [Table.mem_keys_ofList, names_columns] at hn
    exact hn
  · intro f
    rw [← Table.find?, Table.find?_ofList_of_nodup hnodup, Table.lookup_eq_some_iff hnodup]
    exact List.mem_map_of_mem (Feature.mem_all f)

end FeatureSet

end CorpusAudit
