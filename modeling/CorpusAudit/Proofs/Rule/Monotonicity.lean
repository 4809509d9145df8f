import CorpusAudit.Corpus.Row
import CorpusAudit.Label.Basic
import CorpusAudit.Proofs.Decode
import CorpusAudit.Proofs.Feature.Detecting
import CorpusAudit.Proofs.Rule.Precedence

/-!
# More features are no less severe

No condition asks for the absence of a feature.  So a rule that matches still matches when
features are added (`Condition.holds_of_isWithin`), and since rules are ordered by severity
the first match only moves to the front.  A row whose program is made longer is read as a
record with more features, hence of a tier that is as severe (`RuleSet.raises_severity`).
-/

namespace CorpusAudit

/-- All features of the first set are in the second. -/
def FeatureSet.IsWithin (v w : FeatureSet) : Prop :=
  ∀ f, v.has f = true → w.has f = true

instance (v w : FeatureSet) : Decidable (v.IsWithin w) :=
  decidable_of_iff (∀ f ∈ v.present, w.has f = true) (by simp [FeatureSet.IsWithin,
    FeatureSet.mem_present])

section Matching

variable {v w : FeatureSet}

theorem Condition.holds_of_isWithin (h : v.IsWithin w) {c : Condition} (hc : c.holds v = true) :
  c.holds w = true
  := by
  cases c with
  | has f => exact h f hc
  | all fs =>
    rw [holds, List.all_eq_true] at hc ⊢
    intro f hf
    exact h f (hc f hf)
  | any fs =>
    rw [holds, List.any_eq_true] at hc ⊢
    obtain ⟨f, hf, hv⟩ := hc
    exact ⟨f, hf, h f hv⟩
  | always => rfl

namespace RuleSet

variable (s : RuleSet)

/-- The first match for fewer features is one of the matches for more. -/
theorem firstMatch_mem_matching (h : v.IsWithin w) :
  s.firstMatch v ∈ s.matching w
  := by
  have hv : Rule.matchesFeatures v (s.firstMatch v) = true :=
    List.find?_some (s.find?_eq_firstMatch v)
  exact List.mem_filter.mpr ⟨s.firstMatch_mem v, Condition.holds_of_isWithin h hv⟩

theorem rank_firstMatch_le_of_isWithin (h : v.IsWithin w) :
  (s.firstMatch w).tier.rank ≤ (s.firstMatch v).tier.rank
  := s.rank_firstMatch_le w (s.firstMatch_mem_matching h)

/-- The first match is not behind any other match. -/
theorem idxOf_firstMatch_le {r : Rule} (h : r ∈ s.matching w) :
  s.rules.idxOf (s.firstMatch w) ≤ s.rules.idxOf r
  := by
  obtain ⟨hmatch, before, after, hrules, hbefore⟩ :=
    List.find?_eq_some_iff_append.mp (s.find?_eq_firstMatch w)
  have hnot {q : Rule} (hq : Rule.matchesFeatures w q = true) : q ∉ before := by
    intro hmem
    simpa [hq] using hbefore q hmem
  have hr : Rule.matchesFeatures w r = true := (List.mem_filter.mp h).2
  rw [hrules, List.idxOf_append_of_notMem (hnot hmatch), List.idxOf_append_of_notMem (hnot hr),
    List.idxOf_cons_self]
  apply Nat.le_add_right

end RuleSet

end Matching

/-! ### Rows with longer programs -/

namespace Decode

variable {g : String → Value → Value}

/-- Fields whose values are changed in dependence on their names. -/
def Fields.mapValues (g : String → Value → Value) (fs : Fields) : Fields :=
  ⟨fs.positional, fs.given.map fun f => (f.1, g f.1 f.2)⟩

theorem fields_mapValues (d : Dialect) (declared : List String) (others : Bool)
    (fs : List (String × Value)) :
  fields d declared others (.record (fs.map fun f => (f.1, g f.1 f.2)))
    = (fields d declared others (.record fs)).map (Fields.mapValues g)
  := by
  have hknown : (fs.map fun f => (f.1, g f.1 f.2)).filter (fun f => declared.contains f.1)
      = (fs.filter fun f => declared.contains f.1).map fun f => (f.1, g f.1 f.2) := by
    rw [List.filter_map]
    rfl
  simp only [fields, hknown, List.map_map, List.length_map]
  split_ifs with h h' h'
  · rfl
  · exact absurd h h'
  · exact absurd h' h
  · rfl

theorem Fields.find?_mapValues (fs : Fields) (n : String) :
  (fs.mapValues g).find? n = (fs.find? n).map (g n)
  := by
  rw [find?, find?, mapValues, List.find?_map, Option.map_map, Option.map_map]
  apply Option.map_congr
  intro f hf
  have hname : f.1 = n := by simpa using List.find?_some hf
  rw [Function.comp_apply, Function.comp_apply, hname]

/-- A field with a default, when what is read from a changed value is changed itself. -/
theorem Fields.orElse_mapValues {α : Type} {n : String} {d : Decoder α} {change : α → α}
    (h : ∀ v, d (g n v) = (d v).map change) (fs : Fields) (a : α) :
  (fs.mapValues g).orElse n d (change a) = (fs.orElse n d a).map change
  := by
  rw [orElse, orElse, find?_mapValues]
  cases fs.find? n with
  | none => rfl
  | some v => exact h v

end Decode

namespace Row

/-- A value of a column, `more` being put at its end if it is the text of the program. -/
def lengthenValue (more : String) (column : String) : Value → Value
  | .text t => .text (if column = Column.source.name then t ++ more else t)
  | v => v

/-- The fields of a row with `more` put at the end of the text of the program. -/
def lengthen (more : String) (fields : List (String × Value)) : List (String × Value) :=
  fields.map fun f => (f.1, lengthenValue more f.1 f.2)

theorem lengthenValue_of_ne {column : String} (h : column ≠ Column.source.name) (more : String)
    (v : Value) :
  lengthenValue more column v = v
  := by
  cases v <;> simp [lengthenValue, h]

theorem hasColumn_lengthen (more : String) (fields : List (String × Value)) (c : Column) :
  hasColumn (lengthen more fields) c = hasColumn fields c
  := by
  simp only [hasColumn, Value.hasField, lengthen, List.any_map]
  rfl

/-- The text of the program is read with `more` at its end. -/
theorem option_text_lengthenValue (more : String) (v : Value) :
  Decode.option Decode.text (lengthenValue more Column.source.name v)
    = (Decode.option Decode.text v).map fun source => source.map (· ++ more)
  := by
  cases v <;> rfl

/-- A row with a longer program is read as a record with more features, and otherwise the
same. -/
theorem exists_decode_lengthen {fields : List (String × Value)} {r : Record}
    (h : decode (.record fields) = some r) (more : String) :
  ∃ features, decode (.record (lengthen more fields)) = some { r with features }
    ∧ r.features.IsWithin features
  := by
  simp only [decode, Option.bind_eq_bind, Option.bind_eq_some_iff, Option.some.injEq] at h
  obtain ⟨fs, hfs, id, hid, category, hcategory, transpiled, htranspiled, compiles, hcompiles,
    testsPass, htests, codes, hcodes, features, hfeatures, source, hread, rfl⟩ := h
  let longer := fs.mapValues (lengthenValue more)
  have hfind {n : String} (hn : n ≠ "python_code") : longer.find? n = fs.find? n := by
    rw [Decode.Fields.find?_mapValues, funext (lengthenValue_of_ne hn more), Option.map_id']
  have hrequired {α : Type} {n : String} (hn : n ≠ "python_code") (d : Decoder α) :
      longer.required n d = fs.required n d := by
    rw [Decode.Fields.required, hfind hn, Decode.Fields.required]
  have horElse {α : Type} {n : String} (hn : n ≠ "python_code") (d : Decoder α) (a : α) :
      longer.orElse n d a = fs.orElse n d a := by
    rw [Decode.Fields.orElse, hfind hn, Decode.Fields.orElse]
  have hoptional {α : Type} {n : String} (hn : n ≠ "python_code") (d : Decoder α) :
      longer.optional n d = fs.optional n d := by
    rw [Decode.Fields.optional, hfind hn, Decode.Fields.optional]
    rfl
  have hsource : longer.orElse "python_code" (Decode.option Decode.text) none
      = some (source.map (· ++ more)) := by
    have hmap := Decode.Fields.orElse_mapValues (option_text_lengthenValue more) fs none
    rw [Column.name, hread] at hmap
    exact hmap
  use features.getD (((source.map (· ++ more)).map FeatureSet.ofSource).getD FeatureSet.empty)
  constructor
  · rw [decode, lengthen, Decode.fields_mapValues, hfs, Option.map_some,
      Decode.bind_of_eq_some rfl, hrequired (by decide), Decode.bind_of_eq_some hid,
      hrequired (by decide), Decode.bind_of_eq_some hcategory,
      hrequired (by decide), Decode.bind_of_eq_some htranspiled,
      horElse (by decide), Decode.bind_of_eq_some hcompiles,
      horElse (by decide), Decode.bind_of_eq_some htests,
      hoptional (by decide), Decode.bind_of_eq_some hcodes,
      horElse (by decide), Decode.bind_of_eq_some hfeatures, Decode.bind_of_eq_some hsource]
  · intro f hf
    cases features with
    | some features => exact hf
    | none =>
      cases source with
      | none => exact hf
      | some source => exact FeatureSet.has_ofSource_append hf more

theorem exists_read_lengthen {fields : List (String × Value)} {r : Record}
    (h : read (some (.record fields)) = .ok r) (more : String) :
  ∃ features, read (some (.record (lengthen more fields))) = .ok { r with features }
    ∧ r.features.IsWithin features
  := by
  have hcolumns : hasColumn (lengthen more fields) = hasColumn fields :=
    funext (hasColumn_lengthen more fields)
  simp only [read, fields?, hcolumns] at h ⊢
  split at h
  · simp at h
  · split at h
    · next r' hdecode =>
      obtain rfl : r' = r := by simpa using h
      obtain ⟨features, hfeatures, hwithin⟩ := exists_decode_lengthen hdecode more
      exact ⟨features, by rw [hfeatures], hwithin⟩
    · simp at h

end Row

namespace RuleSet

/-- With every rule set, more features get a tier that is at least as severe, by a rule that is
not behind; and a row gets a tier that is at least as severe when its program is made longer. -/
theorem raises_severity (s : RuleSet) :
  (∀ v w : FeatureSet, v.IsWithin w →
      (s.firstMatch w).tier.rank ≤ (s.firstMatch v).tier.rank
        ∧ s.rules.idxOf (s.firstMatch w) ≤ s.rules.idxOf (s.firstMatch v)
        ∧ s.rules.idxOf (s.firstMatch v) < s.rules.length)
    ∧ ∀ (fields : List (String × Value)) (r : Record) (more : String),
      Row.read (some (.record fields)) = .ok r →
      ∃ features, Row.read (some (.record (Row.lengthen more fields))) = .ok { r with features }
        ∧ r.features.IsWithin features
        ∧ (s.label { r with features }).tier.rank ≤ (s.label r).tier.rank
  := by
  constructor
  · intro v w h
    refine ⟨s.rank_firstMatch_le_of_isWithin h, ?_, ?_⟩
    · exact s.idxOf_firstMatch_le (s.firstMatch_mem_matching h)
    · exact List.idxOf_lt_length_of_mem (s.firstMatch_mem v)
  · intro fields r more h
    obtain ⟨features, hread, hwithin⟩ := Row.exists_read_lengthen h more
    exact ⟨features, hread, hwithin, s.rank_firstMatch_le_of_isWithin hwithin⟩

/-- A row without features, whose program is a comment. -/
private def commentRow : List (String × Value) :=
  [("id", .text "a"), ("category", .text "b"), ("has_rust", .bool true),
    ("error_codes", .list []), ("python_code", .text "# none")]

private def commentRecord : Record :=
  ⟨"a", "b", true, none, none, [], FeatureSet.ofSource "# none"⟩

theorem raises_severity_of_lambda :
  (default.firstMatch (FeatureSet.empty.set .lambda true)).tier.rank
      ≤ (default.firstMatch .empty).tier.rank
    ∧ ∃ features, Row.read (some (.record (Row.lengthen "\nf = lambda x: x" commentRow)))
      = .ok { commentRecord with features }
      ∧ (default.label { commentRecord with features }).tier.rank
        ≤ (default.label commentRecord).tier.rank
  := by
  have hread : Row.read (some (.record commentRow)) = .ok commentRecord := by
    rfl
  obtain ⟨hfeatures, hrows⟩ := raises_severity default
  obtain ⟨features, hlonger, -, hrank⟩ := hrows commentRow _ "\nf = lambda x: x" hread
  exact ⟨(hfeatures _ _ (by decide)).1, features, hlonger, hrank⟩

end RuleSet

end CorpusAudit
