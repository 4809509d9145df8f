import CorpusAudit.Config
import CorpusAudit.Proofs.Decode
import CorpusAudit.Proofs.Json.Writing
import CorpusAudit.Proofs.Rule.Precedence

/-!
# Rule sets as documents

What stands for a rule in a document is told without a reader: a name is a text, or a field
that holds nothing; a condition is a field that holds what it is about; a rule has each of its
three fields once, among others, or has them in order (`Rule.IsWritten`).  Documents are read
as what is written in them, and as nothing else, so a rule set is read exactly from the
documents that are written as a list that is accepted.  A rule set that is written down is
read back (`RuleSet.reads_written`).
-/

namespace CorpusAudit

namespace Decode

variable {d : Dialect} {fs : List (String × Value)} {given : Fields} {n s : String} {v : Value}

/-! ### Names -/

/-- A value stands for a name: it is the text, or a record with one field of that name, which
holds nothing. -/
inductive IsName (d : Dialect) : Value → String → Prop
  | text (s : String) : IsName d (.text s) s
  | field (s : String) {v : Value} (h : d.isNothing v = true) : IsName d (.record [(s, v)]) s

theorem name_eq_some_iff :
  name d v = some s ↔ IsName d v s
  := by
  constructor
  · intro h
    unfold name at h
    split at h
    · obtain rfl := Option.some.inj h
      apply IsName.text
    · split_ifs at h with hnothing
      obtain rfl := Option.some.inj h
      exact .field _ hnothing
    · simp at h
  · rintro (_ | ⟨_, hnothing⟩)
    · rfl
    · rw [name, if_pos hnothing]

theorem choice_eq_some_iff {α : Type} {named : String → Option α} {a : α} :
  choice d named v = some a ↔ ∃ s, IsName d v s ∧ named s = some a
  := by
  simp only [choice, Option.bind_eq_some_iff, name_eq_some_iff]

/-! ### Fields that are given once -/

/-- A record has one field of the given name, with the given value. -/
def IsOnly (fs : List (String × Value)) (n : String) (v : Value) : Prop :=
  fs.filter (·.1 = n) = [(n, v)]

/-- What is found under a declared name is the value of the only field of that name. -/
theorem isOnly_of_find? {declared : List String} {others : Bool}
    (h : fields d declared others (.record fs) = some given) (hn : n ∈ declared)
    (hfind : given.find? n = some v) :
  IsOnly fs n v
  := by
  rw [fields] at h
  split_ifs at h with hknown
  obtain rfl := Option.some.inj h
  have hmem := (Table.lookup_eq_some_iff hknown.1).mp hfind
  have honly := Table.filter_key_eq hknown.1 hmem
  rw [List.filter_filter] at honly
  rw [IsOnly, ← honly]
  apply List.filter_congr
  intro f _
  by_cases hf : f.1 = n <;> simp [hf, hn]

/-- A record that has all declared fields once is read, and the fields are found. -/
theorem exists_fields_of_isOnly {declared : List String}
    (h : ∀ n ∈ declared, ∃ v, IsOnly fs n v) :
  ∃ given, fields d declared true (.record fs) = some given
    ∧ ∀ n ∈ declared, ∀ v, IsOnly fs n v → given.find? n = some v
  := by
  let known := fs.filter fun f => declared.contains f.1
  have hsame {n : String} (hn : n ∈ declared) :
      known.filter (·.1 = n) = fs.filter (·.1 = n) := by
    rw [List.filter_filter]
    apply List.filter_congr
    intro f _
    by_cases hf : f.1 = n <;> simp [hf, hn]
  have hknown : (known.map (·.1)).Nodup := by
    rw [List.nodup_iff_count_le_one]
    intro n
    by_cases hn : n ∈ declared
    · obtain ⟨v, hv⟩ := h n hn
      have hcount : (known.map (·.1)).count n = (known.filter (·.1 = n)).length := by
        rw [List.count_eq_countP, List.countP_map, List.countP_eq_length_filter]
        congr 2
      rw [hcount, hsame hn, hv, List.length_singleton]
    · rw [List.count_eq_zero_of_not_mem]
      · apply Nat.zero_le
      · intro hmem
        obtain ⟨f, hf, rfl⟩ := List.mem_map.mp hmem
        exact hn (by simpa using (List.mem_filter.mp hf).2)
  refine ⟨⟨false, known⟩, ?_, ?_⟩
  · rw [fields, if_pos ⟨hknown, Or.inl rfl⟩]
  · intro n hn v hv
    apply (Table.lookup_eq_some_iff hknown).mpr
    rw [IsOnly, ← hsame hn] at hv
    exact List.mem_of_mem_filter (hv ▸ List.mem_singleton_self _)

end Decode

open Decode (Dialect IsName IsOnly)

variable {d : Dialect} {v : Value}

/-! ### Features and tiers -/

theorem Feature.ofName?_eq_some_iff {s : String} {f : Feature} :
  ofName? s = some f ↔ s = f.name
  := by
  constructor
  · intro h
    simpa [eq_comm] using List.find?_some h
  · rintro rfl
    apply ofName?_name

theorem Feature.decode_eq_some_iff {f : Feature} :
  decode d v = some f ↔ IsName d v f.name
  := by
  simp [decode, Decode.choice_eq_some_iff, ofName?_eq_some_iff]

theorem Tier.ofName?_eq_some_iff {s : String} {t : Tier} :
  ofName? s = some t ↔ s = t.name
  := by
  constructor
  · intro h
    simpa [eq_comm] using List.find?_some h
  · rintro rfl
    apply ofName?_name

theorem Tier.decode_eq_some_iff {t : Tier} :
  decode d v = some t ↔ IsName d v t.name
  := by
  simp [decode, Decode.choice_eq_some_iff, ofName?_eq_some_iff]

/-! ### Conditions -/

/-- Values are the names of features, one for each. -/
def Feature.AreWritten (d : Dialect) (vs : List Value) (fs : List Feature) : Prop :=
  List.Forall₂ (fun v f => IsName d v f.name) vs fs

/-- A value stands for a condition. -/
inductive Condition.IsWritten (d : Dialect) : Value → Condition → Prop
  | has {v : Value} {f : Feature} (h : IsName d v f.name) :
    IsWritten d (.record [("has", v)]) (.has f)
  | all {vs : List Value} {fs : List Feature} (h : Feature.AreWritten d vs fs) :
    IsWritten d (.record [("all", .list vs)]) (.all fs)
  | any {vs : List Value} {fs : List Feature} (h : Feature.AreWritten d vs fs) :
    IsWritten d (.record [("any", .list vs)]) (.any fs)
  | always {v : Value} (h : IsName d v "always") :
    IsWritten d v .always

theorem Feature.list_eq_some_iff {fs : List Feature} :
  Decode.list (decode d) v = some fs ↔ ∃ vs, v = .list vs ∧ AreWritten d vs fs
  := by
  simp only [Decode.list_eq_some_iff, decode_eq_some_iff, AreWritten]

theorem Condition.decode_eq_some_iff {c : Condition} :
  decode d v = some c ↔ IsWritten d v c
  := by
  constructor
  · intro h
    unfold decode at h
    split at h
    · obtain rfl := Option.some.inj h
      exact .always (.text _)
    · split_ifs at h with hnothing
      obtain rfl := Option.some.inj h
      exact .always (.field _ hnothing)
    · obtain ⟨f, hf, rfl⟩ := Option.map_eq_some_iff.mp h
      exact .has (Feature.decode_eq_some_iff.mp hf)
    · obtain ⟨fs, hfs, rfl⟩ := Option.map_eq_some_iff.mp h
      obtain ⟨vs, rfl, hvs⟩ := Feature.list_eq_some_iff.mp hfs
      exact .all hvs
    · obtain ⟨fs, hfs, rfl⟩ := Option.map_eq_some_iff.mp h
      obtain ⟨vs, rfl, hvs⟩ := Feature.list_eq_some_iff.mp hfs
      exact .any hvs
    · simp at h
  · rintro (hname | hvs | hvs | hname)
    · simp [decode, Feature.decode_eq_some_iff.mpr hname]
    · simp [decode, Feature.list_eq_some_iff.mpr ⟨_, rfl, hvs⟩]
    · simp [decode, Feature.list_eq_some_iff.mpr ⟨_, rfl, hvs⟩]
    · rcases hname with _ | ⟨_, hnothing⟩
      · rfl
      · simp [decode, hnothing]

/-! ### Rules -/

/-- A value stands for a rule: it is a record that has each of the three fields once, and may
have others; or a list of their values in order, with nothing more unless more is skipped. -/
inductive Rule.IsWritten (d : Dialect) : Value → Rule → Prop
  | record {fs : List (String × Value)} {r : Rule} {tier condition : Value}
    (hname : IsOnly fs "name" (.text r.name))
    (htier : IsOnly fs "tier" tier) (ht : IsName d tier r.tier.name)
    (hcondition : IsOnly fs "when" condition) (hc : r.condition.IsWritten d condition) :
    IsWritten d (.record fs) r
  | list {r : Rule} {tier condition : Value} {more : List Value}
    (ht : IsName d tier r.tier.name) (hc : r.condition.IsWritten d condition)
    (hmore : more = [] ∨ d.skipsItems = true) :
    IsWritten d (.list (.text r.name :: tier :: condition :: more)) r

namespace Rule

variable {r : Rule}

/-- What is read from the fields of a rule. -/
theorem decode_eq_some_iff_fields :
  decode d v = some r ↔ ∃ given, Decode.fields d ["name", "tier", "when"] true v = some given
    ∧ given.find? "name" = some (.text r.name)
    ∧ (∃ tier, given.find? "tier" = some tier ∧ IsName d tier r.tier.name)
    ∧ ∃ condition, given.find? "when" = some condition ∧ r.condition.IsWritten d condition
  := by
  have htext {w : Value} {s : String} : Decode.text w = some s ↔ w = .text s := by
    cases w <;> simp [Decode.text]
  obtain ⟨name, tier, condition⟩ := r
  simp only [decode, Decode.Fields.required, Option.bind_eq_bind, Option.bind_eq_some_iff, htext,
    Tier.decode_eq_some_iff, Condition.decode_eq_some_iff, Option.some.injEq, mk.injEq]
  constructor
  · rintro ⟨given, hgiven, name, ⟨_, hname, rfl⟩, tier, htier, condition, hcondition, rfl, rfl,
      rfl⟩
    exact ⟨given, hgiven, hname, htier, hcondition⟩
  · rintro ⟨given, hgiven, hname, htier, hcondition⟩
    exact ⟨given, hgiven, name, ⟨_, hname, rfl⟩, tier, htier, condition, hcondition, rfl, rfl,
      rfl⟩

theorem decode_eq_some_iff :
  decode d v = some r ↔ IsWritten d v r
  := by
  rw [decode_eq_some_iff_fields]
  constructor
  · rintro ⟨given, hgiven, hname, ⟨tier, htier, ht⟩, condition, hcondition, hc⟩
    cases v with
    | record fs =>
      exact .record (Decode.isOnly_of_find? hgiven (by decide) hname)
        (Decode.isOnly_of_find? hgiven (by decide) htier) ht
        (Decode.isOnly_of_find? hgiven (by decide) hcondition) hc
    | list items =>
      rw [Decode.fields] at hgiven
      split_ifs at hgiven with hlength
      obtain rfl := Option.some.inj hgiven
      rcases items with _ | ⟨a, _ | ⟨b, _ | ⟨c, more⟩⟩⟩
      · simp [Decode.Fields.find?] at hname
      · simp [Decode.Fields.find?] at htier
      · simp [Decode.Fields.find?] at hcondition
      · simp [Decode.Fields.find?] at hname htier hcondition
        subst hname htier hcondition
        have hmore : d.skipsItems = true ∨ more.length + 1 + 1 < 3 := by simpa using hlength
        apply IsWritten.list ht hc
        rcases hmore with hskips | hshort
        · exact Or.inr hskips
        · exact Or.inl (List.eq_nil_of_length_eq_zero (by omega))
    | _ => simp [Decode.fields] at hgiven
  · intro h
    cases h with
    | @record fs _ tier condition hname htier ht hcondition hc =>
      have hall : ∀ n ∈ ["name", "tier", "when"], ∃ v, IsOnly fs n v := by
        simpa using ⟨⟨_, hname⟩, ⟨_, htier⟩, _, hcondition⟩
      obtain ⟨given, hgiven, hfind⟩ := Decode.exists_fields_of_isOnly (d := d) hall
      refine ⟨given, hgiven, hfind _ (by decide) _ hname, ?_, ?_⟩
      · exact ⟨_, hfind _ (by decide) _ htier, ht⟩
      · exact ⟨_, hfind _ (by decide) _ hcondition, hc⟩
    | @list _ tier condition more ht hc hmore =>
      refine ⟨⟨true, ["name", "tier", "when"].zip (.text r.name :: tier :: condition :: more)⟩,
        ?_, rfl, ⟨tier, rfl, ht⟩, condition, rfl, hc⟩
      rw [Decode.fields, if_pos]
      rcases hmore with rfl | hskips
      · simp
      · simp [hskips]

/-- A value stands for a list of rules. -/
def AreWritten (d : Dialect) (v : Value) (rules : List Rule) : Prop :=
  ∃ vs, v = .list vs ∧ List.Forall₂ (IsWritten d) vs rules

theorem list_eq_some_iff {rules : List Rule} :
  Decode.list (decode d) v = some rules ↔ AreWritten d v rules
  := by
  simp only [Decode.list_eq_some_iff, decode_eq_some_iff, AreWritten]

end Rule

/-! ### What is written down -/

theorem Feature.areWritten_names (d : Dialect) (fs : List Feature) :
  AreWritten d (fs.map fun f => .text f.name) fs
  := by
  rw [AreWritten, List.forall₂_map_left_iff, List.forall₂_same]
  intro f _
  apply IsName.text

theorem Condition.isWritten_toValue (d : Dialect) (c : Condition) :
  IsWritten d c.toValue c
  := by
  cases c with
  | has f => exact .has (.text f.name)
  | all fs => exact .all (Feature.areWritten_names d fs)
  | any fs => exact .any (Feature.areWritten_names d fs)
  | always => exact .always (.text "always")

theorem Rule.isWritten_toValue (d : Dialect) (r : Rule) :
  IsWritten d r.toValue r
  := .record rfl rfl (.text r.tier.name) rfl (r.condition.isWritten_toValue d)

namespace Json.Kept

theorem names {n : Nat} (fs : List Feature) :
  Kept (n + 1) (.list (fs.map fun f => .text f.name))
  := by
  apply Kept.list
  intro v hv
  obtain ⟨f, -, rfl⟩ := List.mem_map.mp hv
  apply Kept.text

theorem condition {n : Nat} (c : Condition) :
  Kept (n + 2) c.toValue
  := by
  have hfield {kind : String} {v : Value} (h : Kept (n + 1) v) :
      Kept (n + 2) (.record [(kind, v)]) :=
    Kept.record fun f hf => by simpa [List.mem_singleton.mp hf] using h
  cases c with
  | has f => exact hfield (Kept.text f.name)
  | all fs => exact hfield (Kept.names fs)
  | any fs => exact hfield (Kept.names fs)
  | always => exact Kept.text "always"

theorem rule {n : Nat} (r : Rule) :
  Kept (n + 3) r.toValue
  := by
  apply Kept.record
  intro f hf
  simp only [List.mem_cons, List.not_mem_nil, or_false] at hf
  rcases hf with rfl | rfl | rfl
  · apply Kept.text
  · apply Kept.text
  · apply Kept.condition

theorem rules (s : RuleSet) :
  Kept maxDepth s.toValue
  := by
  apply Kept.list
  intro v hv
  obtain ⟨r, -, rfl⟩ := List.mem_map.mp hv
  apply Kept.rule

end Json.Kept

/-! ### Settings -/

namespace Config

/-- The value that stands for the rules in a document of settings, if there is one. -/
def rulesValue? (v : Value) : Option Value := do
  let sections ← Decode.fields .toml
    ["loader", "labeling", "report", "gate", "sampling", "golden"] true v
  let labeling ← Decode.fields .toml ["rules"] true (← sections.find? "labeling")
  labeling.find? "rules"

/-- The rules of a document of settings: the default rules if there is no value for them, and
otherwise what the value stands for, which is a list that is accepted. -/
def HasRules (v : Value) (s : RuleSet) : Prop :=
  match rulesValue? v with
  | none => s = .default
  | some w => ∃ rules, Rule.AreWritten .toml w rules ∧ RuleSet.ofRules rules = .ok s

end Config

namespace RuleSet

variable {s : RuleSet} {bytes : Bytes}

theorem decode_eq_some_iff :
  decode d v = some s ↔ ∃ rules, Rule.AreWritten d v rules ∧ ofRules rules = .ok s
  := by
  have hoption {x : Except ConfigurationFault RuleSet} : x.toOption = some s ↔ x = .ok s := by
    cases x <;> simp [Except.toOption]
  simp only [decode, Option.bind_eq_bind, Option.bind_eq_some_iff, Rule.list_eq_some_iff, hoption]

theorem decode_toValue (d : Dialect) (s : RuleSet) :
  decode d s.toValue = some s
  := by
  apply decode_eq_some_iff.mpr
  refine ⟨s.rules, ⟨_, rfl, ?_⟩, ofRules_eq_ok_iff.mpr rfl⟩
  rw [List.forall₂_map_left_iff, List.forall₂_same]
  intro r _
  apply Rule.isWritten_toValue

theorem hasRules_of_decode {c : Config} (h : Config.decode v = some c) :
  Config.HasRules v c.rules
  := by
  simp only [Config.decode, Option.bind_eq_bind, Option.bind_eq_some_iff, Option.some.injEq] at h
  obtain ⟨sections, hsections, -, -, rules, hrules, -, -, -, -, -, -, -, -, rfl⟩ := h
  rw [Decode.Fields.orElse] at hrules
  cases hlabeling : sections.find? "labeling" with
  | none =>
    rw [hlabeling] at hrules
    have hnone : Config.rulesValue? v = none := by simp [Config.rulesValue?, hsections, hlabeling]
    rw [Config.HasRules, hnone]
    exact (Option.some.inj hrules).symm
  | some w =>
    simp only [hlabeling, Config.decodeLabeling, Option.bind_eq_bind, Option.bind_eq_some_iff,
      Decode.Fields.orElse] at hrules
    obtain ⟨labeling, hfields, hrules⟩ := hrules
    have hvalue : Config.rulesValue? v = labeling.find? "rules" := by
      simp [Config.rulesValue?, hsections, hlabeling, hfields]
    rw [Config.HasRules, hvalue]
    cases hgiven : labeling.find? "rules" with
    | none =>
      rw [hgiven] at hrules
      exact (Option.some.inj hrules).symm
    | some u =>
      rw [hgiven] at hrules
      exact decode_eq_some_iff.mp hrules

/-- Settings come from a document with their rules. -/
theorem hasRules_of_ofBytes {p : Path} {c : Config} (h : Config.ofBytes p bytes = .ok c) :
  ∃ text v, Text.decode? bytes = some text ∧ Toml.parse? text = some v
    ∧ Config.HasRules v c.rules
  := by
  rw [Config.ofBytes] at h
  cases htext : Text.decode? bytes with
  | none => simp [htext] at h
  | some text =>
    simp only [htext] at h
    cases hdecode : (Toml.parse? text).bind Config.decode with
    | none => simp [hdecode] at h
    | some c' =>
      simp only [hdecode] at h
      obtain ⟨v, hparse, hread⟩ := Option.bind_eq_some_iff.mp hdecode
      split at h
      · simp at h
      · obtain rfl := Except.ok.inj h
        exact ⟨text, v, rfl, hparse, hasRules_of_decode hread⟩

/-! ### Documents -/

/-- The rule set that the bytes of a JSON document stand for. -/
def ofJson? (bytes : Bytes) : Option RuleSet :=
  (Json.ofBytes? bytes).bind (decode .json)

theorem ofJson?_eq_some_iff :
  ofJson? bytes = some s ↔ ∃ v rules, Json.ofBytes? bytes = some v
    ∧ Rule.AreWritten .json v rules ∧ ofRules rules = .ok s
  := by
  simp only [ofJson?, Option.bind_eq_some_iff, decode_eq_some_iff, exists_and_left]

/-- A document is read if it stands for rules in an order of precedence. -/
theorem exists_ofJson?_iff :
  (∃ s, ofJson? bytes = some s) ↔ ∃ v rules, Json.ofBytes? bytes = some v
    ∧ Rule.AreWritten .json v rules ∧ IsPrecedence rules
  := by
  simp only [ofJson?_eq_some_iff, ofRules_eq_ok_iff]
  constructor
  · rintro ⟨s, v, rules, hbytes, hwritten, rfl⟩
    exact ⟨v, s.rules, hbytes, hwritten, s.isPrecedence⟩
  · rintro ⟨v, rules, hbytes, hwritten, hrules⟩
    exact ⟨⟨rules, faultOf?_eq_none_iff.mpr hrules⟩, v, rules, hbytes, hwritten, rfl⟩

/-- A rule set is read back from its document, compact or as an artifact.  A document is read
as a rule set exactly if it stands for a list of rules that is accepted, which is to say that
the list is ordered by severity and ends with its only catch-all.  So no settings have other
rules, and those of a file stand in it, unless they are the default rules. -/
theorem reads_written :
  (∀ s : RuleSet, ofJson? (Text.encode (Json.compactText s.toValue)) = some s
      ∧ ofJson? (Text.encode (Json.render s.toValue)) = some s)
    ∧ (∀ bytes s, ofJson? bytes = some s ↔ ∃ v rules, Json.ofBytes? bytes = some v
      ∧ Rule.AreWritten .json v rules ∧ ofRules rules = .ok s)
    ∧ (∀ bytes, (∃ s, ofJson? bytes = some s) ↔ ∃ v rules, Json.ofBytes? bytes = some v
      ∧ Rule.AreWritten .json v rules ∧ IsPrecedence rules)
    ∧ (∀ c : Config, IsPrecedence c.rules.rules)
    ∧ ∀ p bytes c, Config.ofBytes p bytes = .ok c →
      ∃ text v, Text.decode? bytes = some text ∧ Toml.parse? text = some v
        ∧ Config.HasRules v c.rules
  := by
  refine ⟨fun s => ⟨?compact, ?artifact⟩, fun _ _ => ofJson?_eq_some_iff,
    fun _ => exists_ofJson?_iff, fun c => c.rules.isPrecedence,
    fun _ _ _ => hasRules_of_ofBytes⟩
  case compact =>
    rw [ofJson?, Json.compactText, (Json.Kept.rules s).ofBytes?_compact]
    exact decode_toValue .json s
  case artifact =>
    have hkept := Json.Kept.rules s
    rw [ofJson?, Json.ofBytes?_render, hkept.reread, Value.limit_of_depth_le hkept.depth]
    exact decode_toValue .json s

/-- Rules whose names have to be escaped, and that ask for no feature or for one two. -/
def unusual : RuleSet where
  rules := [⟨"\"a\\\n", .high, .any []⟩, ⟨"two", .high, .all [.lambda, .lambda]⟩,
    ⟨"", .low, .always⟩]
  sound := by decide +kernel

/-- The document of these rules. -/
def unusualText : String :=
  "[\x7b\"name\":\"\\\"a\\\\\\n\",\"tier\":\"HIGH\",\"when\":\x7b\"any\":[]\x7d\x7d,"
    ++ "\x7b\"name\":\"two\",\"tier\":\"HIGH\",\"when\":\x7b\"all\":[\"lambda\",\"lambda\"]\x7d\x7d,"
    ++ "\x7b\"name\":\"\",\"tier\":\"LOW\",\"when\":\"always\"\x7d]"

/-- They are read back from their document, and an empty file of settings has the default
rules. -/
theorem reads_written_unusual :
  Json.compactText unusual.toValue = unusualText
    ∧ ofJson? (Text.encode unusualText) = some unusual
    ∧ Config.ofBytes ⟨"criba.toml"⟩ [] = .ok .default
    ∧ ∃ text v, Text.decode? [] = some text ∧ Toml.parse? text = some v
      ∧ Config.HasRules v Config.default.rules
  := by
  have htext : Json.compactText unusual.toValue = unusualText := by decide +kernel
  have hfile : Config.ofBytes ⟨"criba.toml"⟩ [] = .ok .default := by
    have hdecode : Text.decode? [] = some "" := by decide +kernel
    have hparse : (Toml.parse? "").bind Config.decode = some .default := rfl
    have hfault : Config.default.faultOf? = none := by decide +kernel
    simp only [Config.ofBytes, hdecode, hparse, hfault]
  obtain ⟨hread, -, -, -, hrules⟩ := reads_written
  refine ⟨htext, ?_, hfile, hrules _ _ _ hfile⟩
  rw [← htext]
  exact (hread unusual).1

end RuleSet

end CorpusAudit
