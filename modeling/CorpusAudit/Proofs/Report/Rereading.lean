import CorpusAudit.Proofs.Json.Rereading
import CorpusAudit.Proofs.Time
import CorpusAudit.Report.Document

/-!
# Reports that are read back

A report whose counts fit in 64 bits, and whose rates and scores are finite, is read back
from its document.  Only the rates and the scores may differ, by what the reader makes of
their digits.
-/

namespace CorpusAudit

open Json (Rereads rereadFloat)

variable {n : Nat}

theorem rereads_rate {r : Option Float} (h : ∀ x ∈ r, x.isFinite = true) :
  Rereads n (Decode.option Decode.float) (.ofOption .float r) (r.map rereadFloat)
  := by
  apply Rereads.option
  intro x hx
  have hread := Rereads.float (n := n) (h x hx)
  refine ⟨hread, ?_⟩
  intro hnull
  have hdecode := hread.decode
  rw [hnull] at hdecode
  simp [Decode.float] at hdecode

theorem rereads_grade (g : Grade) :
  Rereads n (Grade.decode .json) g.toValue g
  := Rereads.choice (Grade.ofSymbol?_symbol g)

/-! ### Categories -/

namespace CategoryResult

/-- A result that is read back. -/
structure IsWritable (c : CategoryResult) : Prop where
  passed : c.passed < UInt64.size
  failed : c.failed < UInt64.size
  passRate : ∀ x ∈ c.passRate, x.isFinite = true

/-- A result as it is read back. -/
def reread (c : CategoryResult) : CategoryResult :=
  { c with passRate := c.passRate.map rereadFloat }

theorem rereads {c : CategoryResult} (h : c.IsWritable) :
  Rereads (n + 1) (decode .json) c.toValue c.reread
  := by
  have hpassed := Rereads.count (n := n) h.passed
  have hfailed := Rereads.count (n := n) h.failed
  have hrate := rereads_rate (n := n) h.passRate
  have hgrade := rereads_grade (n := n) c.grade
  constructor
  · apply Rereads.depth_record
    simp only [List.forall_mem_cons, List.not_mem_nil, false_implies, implies_true, and_true]
    exact ⟨hpassed.depth, hfailed.depth, hrate.depth, hgrade.depth⟩
  · obtain ⟨given, hgiven, hfind⟩ := Rereads.fields (rfl : c.toValue = _)
      (rfl : _ = ["passed", "failed", "pass_rate", "grade"]) (by decide)
    simp only [List.forall_mem_cons, List.not_mem_nil, false_implies, implies_true, and_true]
      at hfind
    obtain ⟨hfind₁, hfind₂, hfind₃, hfind₄⟩ := hfind
    rw [decode, hgiven]
    simp only [Option.bind_eq_bind, Option.bind_some, hpassed.required hfind₁,
      hfailed.required hfind₂, hrate.optional hfind₃, hgrade.required hfind₄]
    rfl

end CategoryResult

/-! ### Tiers -/

namespace ByTier

/-- The tiers that have a value, with their values. -/
def entries {α : Type} (b : ByTier (Option α)) : List (Tier × α) :=
  Tier.all.filterMap fun t => (b.get t).map fun a => (t, a)

theorem mem_entries {α : Type} {b : ByTier (Option α)} {e : Tier × α} :
  e ∈ b.entries ↔ b.get e.1 = some e.2
  := by
  have hall (t : Tier) : t ∈ Tier.all := by cases t <;> decide
  obtain ⟨t, a⟩ := e
  simp [entries, hall]

theorem of_entries {α : Type} (b : ByTier (Option α)) :
  (of fun t => (b.entries.reverse.find? (·.1 = t)).map (·.2)) = b
  := by
  obtain ⟨h, m, l⟩ := b
  cases h <;> cases m <;> cases l <;> rfl

theorem rereads_count {b : ByTier (Option Nat)} (h : ∀ t, ∀ k ∈ b.get t, k < UInt64.size) :
  Rereads (n + 1) (decode Decode.count) (b.toValue .nat) b
  := by
  have hvalue : b.toValue .nat = .record (b.entries.map fun e => (e.1.name, .nat e.2)) := by
    simp only [toValue, entries, List.map_filterMap, Option.map_map]
    rfl
  have hentry (e : Tier × Nat) (he : e ∈ b.entries) :
      Rereads n Decode.count (.nat e.2) e.2 :=
    Rereads.count (h e.1 e.2 (mem_entries.mp he))
  rw [hvalue]
  constructor
  · apply Rereads.depth_record
    intro f hf
    obtain ⟨e, he, rfl⟩ := List.mem_map.mp hf
    exact (hentry e he).depth
  · rw [Json.reread, Json.rereadFields_eq_map, decode, List.map_map, List.mapM_map,
      Decode.mapM_eq_some (f := id)]
    · rw [List.map_id]
      exact congrArg some (of_entries b)
    · intro e he
      simp [Tier.ofName?_name, (hentry e he).decode]

end ByTier

/-! ### Suspicious features -/

namespace Suspicion

/-- A suspicion that is read back. -/
structure IsWritable (s : Suspicion) : Prop where
  score : s.score.isFinite = true
  failedWith : s.counts.failedWith < UInt64.size
  passedWith : s.counts.passedWith < UInt64.size
  totalFailed : s.counts.totalFailed < UInt64.size
  totalPassed : s.counts.totalPassed < UInt64.size

/-- A suspicion as it is read back. -/
def reread (s : Suspicion) : Suspicion :=
  { s with score := rereadFloat s.score }

theorem rereads {s : Suspicion} (h : s.IsWritable) :
  Rereads (n + 1) (decode .json) s.toValue s.reread
  := by
  have hfeature : Rereads n (Feature.decode .json) (.text s.feature.name) s.feature :=
    Rereads.choice (Feature.ofName?_name s.feature)
  have hscore := Rereads.float (n := n) h.score
  have hfailedWith := Rereads.count (n := n) h.failedWith
  have hpassedWith := Rereads.count (n := n) h.passedWith
  have htotalFailed := Rereads.count (n := n) h.totalFailed
  have htotalPassed := Rereads.count (n := n) h.totalPassed
  constructor
  · apply Rereads.depth_record
    simp only [List.forall_mem_cons, List.not_mem_nil, false_implies, implies_true, and_true]
    exact ⟨hfeature.depth, hscore.depth, hfailedWith.depth, hpassedWith.depth,
      htotalFailed.depth, htotalPassed.depth⟩
  · obtain ⟨given, hgiven, hfind⟩ := Rereads.fields (rfl : s.toValue = _)
      (rfl : _ = ["feature_name", "score", "failed_with", "passed_with", "total_failed",
        "total_passed"]) (by decide)
    simp only [List.forall_mem_cons, List.not_mem_nil, false_implies, implies_true, and_true]
      at hfind
    obtain ⟨hfind₁, hfind₂, hfind₃, hfind₄, hfind₅, hfind₆⟩ := hfind
    rw [decode, hgiven]
    simp only [Option.bind_eq_bind, Option.bind_some, hfeature.required hfind₁,
      hscore.required hfind₂, hfailedWith.required hfind₃, hpassedWith.required hfind₄,
      htotalFailed.required hfind₅, htotalPassed.required hfind₆]
    rfl

end Suspicion

/-! ### Recommendations -/

theorem Recommendation.rereads (r : Recommendation) :
  Rereads (n + 1) (Recommendation.decode .json) r.toValue r
  := by
  have hpriority : Rereads n (Priority.decode .json) r.priority.toValue r.priority :=
    Rereads.choice (Priority.ofName?_name r.priority)
  have haction := Rereads.text (n := n) r.action
  have himpact := Rereads.text (n := n) r.impact
  constructor
  · apply Rereads.depth_record
    simp only [List.forall_mem_cons, List.not_mem_nil, false_implies, implies_true, and_true]
    exact ⟨hpriority.depth, haction.depth, himpact.depth⟩
  · obtain ⟨given, hgiven, hfind⟩ := Rereads.fields (rfl : r.toValue = _)
      (rfl : _ = ["priority", "action", "impact"]) (by decide)
    simp only [List.forall_mem_cons, List.not_mem_nil, false_implies, implies_true, and_true]
      at hfind
    obtain ⟨hfind₁, hfind₂, hfind₃⟩ := hfind
    rw [decode, hgiven]
    simp only [Option.bind_eq_bind, Option.bind_some, hpriority.required hfind₁,
      haction.required hfind₂, himpact.required hfind₃]

/-! ### Reports -/

namespace Report

/-- A report that is read back. -/
structure IsWritable (r : Report) : Prop where
  version : r.version < UInt32.size
  generatedAt : r.generatedAt.IsValid
  total : r.total < UInt64.size
  passed : r.passed < UInt64.size
  failed : r.failed < UInt64.size
  undetermined : r.undetermined < UInt64.size
  transpiled : r.transpiled < UInt64.size
  passRate : ∀ x ∈ r.passRate, x.isFinite = true
  byCategory : ∀ e ∈ r.byCategory.entries, e.2.IsWritable
  risks : ∀ t, ∀ k ∈ r.risks.get t, k < UInt64.size
  suspicious : ∀ s ∈ r.suspicious, s.IsWritable

/-- A report as it is read back. -/
def reread (r : Report) : Report :=
  { r with
    passRate := r.passRate.map rereadFloat
    byCategory := r.byCategory.map CategoryResult.reread
    suspicious := r.suspicious.map Suspicion.reread }

theorem rereads_time {t : Time.Instant} (h : t.IsValid) :
  Rereads n Time.decode (.text t.stamp) t
  := by
  refine ⟨Nat.zero_le n, ?_⟩
  rw [Json.reread, Time.decode, Decode.text, Option.bind_some]
  exact Time.parse?_stamp h

/-- A report is read back from its document. -/
theorem rereads {r : Report} (h : r.IsWritable) :
  Rereads 3 decode r.toValue r.reread
  := by
  have hversion : Rereads 2 (Decode.natBelow UInt32.size) (.nat r.version) r.version :=
    Rereads.natBelow (Nat.lt_trans h.version (by decide)) h.version
  have htime := rereads_time (n := 2) h.generatedAt
  have htotal := Rereads.count (n := 2) h.total
  have hpassed := Rereads.count (n := 2) h.passed
  have hfailed := Rereads.count (n := 2) h.failed
  have hundetermined := Rereads.count (n := 2) h.undetermined
  have htranspiled := Rereads.count (n := 2) h.transpiled
  have hrate := rereads_rate (n := 2) h.passRate
  have hgrade := rereads_grade (n := 2) r.grade
  have hcategories := Rereads.table (n := 1) fun e he =>
    CategoryResult.rereads (n := 0) (h.byCategory e he)
  have hrisks := ByTier.rereads_count (n := 1) h.risks
  have hsuspicious := Rereads.list (n := 1) fun s hs =>
    Suspicion.rereads (n := 0) (h.suspicious s hs)
  have hadvice := Rereads.list (n := 1) fun c (_ : c ∈ r.recommendations) => c.rereads (n := 0)
  constructor
  · apply Rereads.depth_record
    simp only [List.forall_mem_cons, List.not_mem_nil, false_implies, implies_true, and_true]
    exact ⟨hversion.depth, htime.depth, htotal.depth, hpassed.depth, hfailed.depth,
      hundetermined.depth, htranspiled.depth, hrate.depth, hgrade.depth, hcategories.depth,
      hrisks.depth, hsuspicious.depth, hadvice.depth⟩
  · obtain ⟨given, hgiven, hfind⟩ := Rereads.fields (rfl : r.toValue = _)
      (rfl : _ = ["schema_version", "generated_at", "total", "passed", "failed", "undetermined",
        "transpiled", "pass_rate", "grade", "by_category", "risk_distribution", "top_suspicious",
        "recommendations"]) (by decide)
    simp only [List.forall_mem_cons, List.not_mem_nil, false_implies, implies_true, and_true]
      at hfind
    obtain ⟨hfind₁, hfind₂, hfind₃, hfind₄, hfind₅, hfind₆, hfind₇, hfind₈, hfind₉, hfind₁₀,
      hfind₁₁, hfind₁₂, hfind₁₃⟩ := hfind
    rw [decode, hgiven]
    -- the fields are read one after the other, in the order in which they are declared
    apply (Decode.bind_of_eq_some (hversion.required hfind₁) _).trans
    apply (Decode.bind_of_eq_some (htime.required hfind₂) _).trans
    apply (Decode.bind_of_eq_some (htotal.required hfind₃) _).trans
    apply (Decode.bind_of_eq_some (hpassed.required hfind₄) _).trans
    apply (Decode.bind_of_eq_some (hfailed.required hfind₅) _).trans
    apply (Decode.bind_of_eq_some (hundetermined.required hfind₆) _).trans
    apply (Decode.bind_of_eq_some (htranspiled.orElse hfind₇ _) _).trans
    apply (Decode.bind_of_eq_some (hrate.optional hfind₈) _).trans
    apply (Decode.bind_of_eq_some (hgrade.required hfind₉) _).trans
    apply (Decode.bind_of_eq_some (hcategories.required hfind₁₀) _).trans
    apply (Decode.bind_of_eq_some (hrisks.orElse hfind₁₁ _) _).trans
    apply (Decode.bind_of_eq_some (hsuspicious.orElse hfind₁₂ _) _).trans
    apply (Decode.bind_of_eq_some (hadvice.orElse hfind₁₃ _) _).trans
    rw [List.map_id']
    rfl

/-- What is read from the document that a report is written to. -/
theorem decode_render {r : Report} (h : r.IsWritable) :
  (Json.ofBytes? (Text.encode (Json.render r.toValue))).bind decode = some r.reread
  := ((rereads h).mono (by decide)).ofBytes?_render

end Report

end CorpusAudit
