import CorpusAudit.Command.Run
import CorpusAudit.Proofs.Command.Sessions
import CorpusAudit.Proofs.Gate.Comparing
import CorpusAudit.Proofs.Gate.Policies
import CorpusAudit.Proofs.Label.Reloading

/-!
# The verdict of a comparison

Whether a comparison of two corpora ends with a closed gate is a matter of their records
alone, also when the corpora are compared by reports that were made from them, written
and read again.
-/

namespace CorpusAudit

/-! ### Regressions of corpora -/

namespace Corpus

/-- Some record that passes before does not pass after. -/
def RecordRegresses (before after : Corpus) : Prop :=
  ∃ r ∈ before.records, ∃ s ∈ after.records, r.id = s.id ∧ r.isPassing = true
    ∧ s.isPassing = false

/-- A category with records before and after passes before and does not pass after. -/
def CategoryRegresses (policy : PassPolicy) (before after : Corpus) (category : String) : Prop :=
  (∃ r ∈ before.records, r.category = category) ∧ (∃ s ∈ after.records, s.category = category)
    ∧ match policy with
      | .any =>
        (∃ r ∈ before.records, r.category = category ∧ r.isPassing = true)
          ∧ ∀ s ∈ after.records, s.category = category → s.isPassing = false
      | .all =>
        (∀ r ∈ before.records, r.category = category → r.isPassing = true)
          ∧ ∃ s ∈ after.records, s.category = category ∧ s.isPassing = false

theorem recordRegresses_iff {before after : Corpus} (hbefore : (before.records.map Record.id).Nodup)
    (hafter : (after.records.map Record.id).Nodup) :
  before.RecordRegresses after
    ↔ ∃ id, (Snapshot.ofRecords before.records).entries.find? id = some true
      ∧ (Snapshot.ofRecords after.records).entries.find? id = some false
  := by
  simp only [Snapshot.find?_ofRecords hbefore, Snapshot.find?_ofRecords hafter]
  constructor
  · rintro ⟨r, hr, s, hs, hid, hpasses, hfails⟩
    exact ⟨s.id, ⟨r, hr, hid, hpasses⟩, s, hs, rfl, hfails⟩
  · rintro ⟨id, ⟨r, hr, hrid, hpasses⟩, s, hs, hsid, hfails⟩
    exact ⟨r, hr, s, hs, hrid.trans hsid.symm, hpasses, hfails⟩

theorem categoryRegresses_iff (policy : PassPolicy) (before after : LabeledCorpus)
    (category : String) :
  before.corpus.CategoryRegresses policy after.corpus category
    ↔ Report.categoryRecords before category ≠ []
      ∧ Report.categoryRecords after category ≠ []
      ∧ policy.Passes (Report.categoryRecords before category)
      ∧ ¬ policy.Passes (Report.categoryRecords after category)
  := by
  have hsome (c : LabeledCorpus) :
      Report.categoryRecords c category ≠ [] ↔ ∃ r ∈ c.corpus.records, r.category = category := by
    simp [Report.categoryRecords, LabeledCorpus.records]
  rw [hsome, hsome, CategoryRegresses.eq_def]
  cases policy <;>
    simp [PassPolicy.Passes, Report.categoryRecords, LabeledCorpus.records, and_assoc]

end Corpus

/-! ### Reports that are written and read -/

namespace Report

/-- A report that was made from a corpus, labelled in some way, at an instant of the calendar. -/
def IsOf (r : Report) (c : Corpus) : Prop :=
  ∃ formula most rules now, Time.Instant.IsValid now ∧ r = aggregate formula most ⟨c, rules⟩ now

/-- A report that was written is read, if its counts agree. -/
theorem load_of_read {r : Report} (hr : r.IsWritable) (hfault : r.faultOf? = none) {p : Path}
    {t : Tree} (hread : t.read p = .ok (Text.encode (Json.render r.toValue))) :
  onTree (load p) t = (.ok r.reread, t)
  := by
  have hdocument : onTree (Storage.readDocument p) t
      = (.ok (Text.encode (Json.render r.toValue)), t) := by
    rw [Storage.readDocument, onTree_adapt_eq_ok_iff, onTree_read, hread]
  have hjson : onTree (Storage.readJson decode p) t = (.ok r.reread, t) := by
    rw [Storage.readJson, onTree_bind, hdocument]
    simp only [decode_render hr, onTree_pure]
  rw [load, onTree_bind, hjson]
  simp only [faultOf?_reread, hfault, onTree_pure]

end Report

/-- A tree has at a path what was written there as a document. -/
def Storage.Holds (t : Tree) (p : Path) (v : Value) : Prop :=
  ∃ u u', onTree (writeJson p v) u = (.ok (), u') ∧ t.read p = u'.read p

theorem Storage.read_of_holds {t : Tree} {p : Path} {v : Value} (h : Holds t p v) :
  t.read p = .ok (Text.encode (Json.render v))
  := by
  obtain ⟨u, u', hwrite, hread⟩ := h
  rw [hread]
  exact read_writeAtomic hwrite

/-! ### Sessions -/

namespace Command

open Session (Ends runOnTree)

/-- The session that compares two snapshots of a level closes the gate if a key has ceased
to pass. -/
theorem ends_compare (before after : Snapshot) (h : before.level = after.level) (t : Tree) :
  ∃ ending, Ends (compare before after) t ending
    ∧ (ending = .gateFailed
      ↔ ∃ key, before.entries.find? key = some true ∧ after.entries.find? key = some false)
  := by
  obtain ⟨c, hc, hregression⟩ := Comparison.of_eq_ok h
  refine ⟨if c.isRegression then .gateFailed else .success, ?_, ?_⟩
  · rw [compare]
    apply Session.ends_bind (Session.ends_ofExcept _ hc)
    apply Session.ends_bind (Session.ends_emit _ _)
    cases c.isRegression with
    | true => exact Session.ends_bind (Session.ends_emit _ _) (Session.ends_pure _)
    | false => exact Session.ends_bind (Session.ends_emit _ _) (Session.ends_pure _)
  · rw [← hregression]
    cases c.isRegression <;> simp

/-- The records of two corpora that can be read are compared. -/
theorem ends_compareRecords {c : Config} {p q : Path} {t : Tree} {before after : Corpus}
    (hbefore : onTree (Corpus.load p c.skipLimit) t = (.ok before, t))
    (hafter : onTree (Corpus.load q c.skipLimit) t = (.ok after, t)) :
  ∃ ending, Ends (runCompareRecords c p q) t ending
    ∧ (ending = .gateFailed ↔ before.RecordRegresses after)
  := by
  obtain ⟨ending, hends, hverdict⟩ :=
    ends_compare (.ofRecords before.records) (.ofRecords after.records) rfl t
  refine ⟨ending, ?_, ?_⟩
  · rw [runCompareRecords]
    apply Session.ends_bind (Session.ends_during hbefore _)
    apply Session.ends_bind (Session.ends_during hafter _)
    exact hends
  · rw [hverdict, Corpus.recordRegresses_iff (Corpus.nodup_ids_of_load hbefore)
      (Corpus.nodup_ids_of_load hafter)]

/-- The categories of two corpora are compared by the reports that were written. -/
theorem ends_compareReports {c : Config} {p q : Path} (policy : Option PassPolicy)
    {before after : Corpus} (hbefore : before.records.length < UInt64.size)
    (hafter : after.records.length < UInt64.size) {r s : Report} (hr : r.IsOf before)
    (hs : s.IsOf after) {t : Tree} (hp : Storage.Holds t p r.toValue)
    (hq : Storage.Holds t q s.toValue) :
  ∃ ending, Ends (runCompareReports c p q policy) t ending
    ∧ (ending = .gateFailed
      ↔ ∃ category, before.CategoryRegresses (policy.getD c.gate.policy) after category)
  := by
  obtain ⟨formula, most, rules, now, hnow, rfl⟩ := hr
  obtain ⟨formula', most', rules', now', hnow', rfl⟩ := hs
  have hloadp := Report.load_of_read
    (Report.isWritable_aggregate (c := ⟨before, rules⟩) hbefore hnow) Report.faultOf?_aggregate
    (Storage.read_of_holds hp)
  have hloadq := Report.load_of_read
    (Report.isWritable_aggregate (c := ⟨after, rules'⟩) hafter hnow') Report.faultOf?_aggregate
    (Storage.read_of_holds hq)
  obtain ⟨ending, hends, hverdict⟩ := ends_compare
    (.ofReport (policy.getD c.gate.policy)
      (Report.aggregate formula most ⟨before, rules⟩ now).reread)
    (.ofReport (policy.getD c.gate.policy)
      (Report.aggregate formula' most' ⟨after, rules'⟩ now').reread) rfl t
  refine ⟨ending, ?_, ?_⟩
  · rw [runCompareReports]
    apply Session.ends_bind (Session.ends_during hloadp _)
    apply Session.ends_bind (Session.ends_during hloadq _)
    apply Session.ends_bind (Session.ends_emit _ _)
    exact hends
  · rw [hverdict]
    apply exists_congr
    intro category
    have hiff := Corpus.categoryRegresses_iff (policy.getD c.gate.policy) ⟨before, rules⟩
      ⟨after, rules'⟩ category
    rw [hiff, Snapshot.ofReport_reread, Snapshot.ofReport_reread,
      Snapshot.find?_ofReport_aggregate (c := ⟨before, rules⟩) hbefore,
      Snapshot.find?_ofReport_aggregate (c := ⟨after, rules'⟩) hafter]
    simp only [true_iff, Bool.false_eq_true, false_iff]
    constructor
    · rintro ⟨⟨hsome, hpasses⟩, hsome', hfails⟩
      exact ⟨hsome, hsome', hpasses, hfails⟩
    · rintro ⟨hsome, hsome', hpasses, hfails⟩
      exact ⟨⟨hsome, hpasses⟩, hsome', hfails⟩

/-- Two corpora that can be read are compared by their records, and by the reports that were
made from them, written and read again: the gate is closed exactly if a record has ceased to
pass, or a category under the policy.  Reports can be read if the records can be counted in
64 bits. -/
theorem verdict_of_comparison (c : Config) (now : Time.Instant) {p q : Path} {t : Tree}
    {before after : Corpus} (hbefore : (onTree (Corpus.load p c.skipLimit) t).1 = .ok before)
    (hafter : (onTree (Corpus.load q c.skipLimit) t).1 = .ok after) :
  (∃ ending transcript,
      runOnTree (runWith c now (.compareRecords p q)) t = ((.ok ending, transcript), t)
        ∧ (ending = .gateFailed ↔ before.RecordRegresses after))
    ∧ ∀ (r s : Report) (p' q' : Path) (policy : Option PassPolicy) (u : Tree),
      r.IsOf before → s.IsOf after
        → before.records.length < UInt64.size → after.records.length < UInt64.size
        → Storage.Holds u p' r.toValue → Storage.Holds u q' s.toValue
        → ∃ ending transcript,
          runOnTree (runWith c now (.compareReports p' q' policy)) u = ((.ok ending, transcript), u)
            ∧ (ending = .gateFailed
              ↔ ∃ category, before.CategoryRegresses (policy.getD c.gate.policy) after category)
  := by
  have hloadp : onTree (Corpus.load p c.skipLimit) t = (.ok before, t) :=
    Prod.ext hbefore (Corpus.load_tree p c.skipLimit t)
  have hloadq : onTree (Corpus.load q c.skipLimit) t = (.ok after, t) :=
    Prod.ext hafter (Corpus.load_tree q c.skipLimit t)
  constructor
  · obtain ⟨ending, hends, hverdict⟩ := ends_compareRecords hloadp hloadq
    obtain ⟨transcript, hrun⟩ := Session.runOnTree_of_ends hends
    exact ⟨ending, transcript, hrun, hverdict⟩
  · intro r s p' q' policy u hr hs hfew hfew' hp hq
    obtain ⟨ending, hends, hverdict⟩ := ends_compareReports policy hfew hfew' hr hs hp hq
    obtain ⟨transcript, hrun⟩ := Session.runOnTree_of_ends hends
    exact ⟨ending, transcript, hrun, hverdict⟩

/-- The tables of a record that compiles at first, and then no more. -/
def twoTables : Tree :=
  ⟨[(["before.jsonl"], .file (Text.encode ("\x7b\"id\":\"a\",\"category\":\"b\",\"has_rust\":true,"
      ++ "\"compiles\":true,\"error_codes\":[],\"python_code\":\"\"\x7d"))),
    (["after.jsonl"], .file (Text.encode ("\x7b\"id\":\"a\",\"category\":\"b\",\"has_rust\":true,"
      ++ "\"compiles\":false,\"error_codes\":[],\"python_code\":\"\"\x7d")))]⟩

/-- The corpus of the record, which compiles or does not. -/
def compiled (compiles : Bool) : Corpus :=
  .ofRecords [⟨"a", "b", true, some compiles, none, [], .empty⟩]

/-- The start of the year 2024. -/
def newYear : Time.Instant :=
  ⟨⟨2024, 1, 1⟩, 0, 0, 0, 0⟩

/-- The report on the record. -/
def reported (compiles : Bool) : Report :=
  .aggregate .tarantula 5 ⟨compiled compiles, .default⟩ newYear

/-- The tree with two documents. -/
def twoDocuments (v w : Value) : Tree :=
  ⟨[(["before.json"], .file (Text.encode (Json.render v))),
    (["after.json"], .file (Text.encode (Json.render w)))]⟩

theorem holds_before (v w : Value) :
  Storage.Holds (twoDocuments v w) ⟨"before.json"⟩ v
  := by
  have hwrite : (onTree (Storage.writeJson ⟨"before.json"⟩ v) ⟨[]⟩).1 = .ok () := rfl
  exact ⟨⟨[]⟩, _, Prod.ext hwrite rfl, rfl⟩

theorem holds_after (v w : Value) :
  Storage.Holds (twoDocuments v w) ⟨"after.json"⟩ w
  := by
  have hwrite : (onTree (Storage.writeJson ⟨"after.json"⟩ w) ⟨[]⟩).1 = .ok () := rfl
  exact ⟨⟨[]⟩, _, Prod.ext hwrite rfl, rfl⟩

/-- The gate is closed when the record ceases to compile, whether the tables are compared or
the reports on them. -/
theorem verdict_of_comparison_two_tables :
  (∃ transcript, runOnTree (runWith .default newYear
      (.compareRecords ⟨"before.jsonl"⟩ ⟨"after.jsonl"⟩)) twoTables
    = ((.ok .gateFailed, transcript), twoTables))
    ∧ ∃ transcript, runOnTree (runWith .default newYear
        (.compareReports ⟨"before.json"⟩ ⟨"after.json"⟩ (some .all)))
        (twoDocuments (reported true).toValue (reported false).toValue)
      = ((.ok .gateFailed, transcript),
        twoDocuments (reported true).toValue (reported false).toValue)
  := by
  have hbefore : (onTree (Corpus.load ⟨"before.jsonl"⟩ Config.default.skipLimit) twoTables).1
      = .ok (compiled true) := by
    decide +kernel
  have hafter : (onTree (Corpus.load ⟨"after.jsonl"⟩ Config.default.skipLimit) twoTables).1
      = .ok (compiled false) := by
    decide +kernel
  have hrecord : (compiled true).RecordRegresses (compiled false) :=
    ⟨_, .head _, _, .head _, rfl, rfl, rfl⟩
  have hcategory : (compiled true).CategoryRegresses .all (compiled false) "b" :=
    ⟨⟨_, .head _, rfl⟩, ⟨_, .head _, rfl⟩, by decide, _, .head _, rfl, rfl⟩
  have hvalid : newYear.IsValid :=
    ⟨rfl, rfl, by decide, by decide, by decide, .inl (by decide)⟩
  have hverdict := verdict_of_comparison .default newYear hbefore hafter
  obtain ⟨ending, transcript, hrun, hclosed⟩ := hverdict.1
  obtain ⟨ending', transcript', hrun', hclosed'⟩ := hverdict.2 (reported true) (reported false)
    ⟨"before.json"⟩ ⟨"after.json"⟩ (some .all) _ ⟨_, _, _, _, hvalid, rfl⟩
    ⟨_, _, _, _, hvalid, rfl⟩ (by decide) (by decide) (holds_before _ _) (holds_after _ _)
  rw [hclosed.mpr hrecord] at hrun
  rw [hclosed'.mpr ⟨"b", hcategory⟩] at hrun'
  exact ⟨⟨transcript, hrun⟩, transcript', hrun'⟩

end Command

end CorpusAudit
