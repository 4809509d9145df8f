import CorpusAudit.Proofs.Report.Rereading
import CorpusAudit.Review.Summary
import CorpusAudit.Sample.Basic

/-!
# Reviews that are read back

A review is read back as it was written, whatever characters its texts have
(`ReviewItem.rereads`).  A sample is a review file: the reader of such files skips the
other fields of a sample and finds its reviews (`Sample.decodeFile_render`).
-/

namespace CorpusAudit

open Json (Rereads)

/-! ### Reviews -/

namespace ReviewItem

/-- A review is read back from its value. -/
theorem rereads {i : ReviewItem} (h : ∀ t ∈ i.reviewedAt, t.IsValid) :
  Rereads 2 decode i.toValue i
  := by
  have hid := Rereads.text (n := 1) i.recordId
  have hcategory := Rereads.text (n := 1) i.category
  have htier : Rereads 1 (Decode.option (Tier.decode .json)) (.ofOption Tier.toValue i.tier)
      i.tier :=
    Rereads.option_self fun t _ => ⟨Rereads.choice (Tier.ofName?_name t), nofun⟩
  have hstatus : Rereads 1 (ReviewStatus.decode .json) (.text i.status.name) i.status :=
    Rereads.choice (ReviewStatus.ofName?_name i.status)
  have hchecks : Rereads 1 (Decode.table (Decode.option Decode.bool))
      (.record (i.checks.entries.map fun e => (e.1, .ofOption .bool e.2))) i.checks :=
    Rereads.table_self fun _ _ => Rereads.option_self fun b _ => ⟨Rereads.bool b, nofun⟩
  have hnotes := Rereads.text (n := 1) i.notes
  have hreviewer : Rereads 1 (Decode.option Decode.text) (.ofOption .text i.reviewer) i.reviewer :=
    Rereads.option_self fun s _ => ⟨Rereads.text s, nofun⟩
  have htime : Rereads 1 (Decode.option Time.decode)
      (.ofOption (fun t => .text t.stamp) i.reviewedAt) i.reviewedAt :=
    Rereads.option_self fun t ht => ⟨Report.rereads_time (h t ht), nofun⟩
  constructor
  · apply Rereads.depth_record
    simp only [List.forall_mem_cons, List.not_mem_nil, false_implies, implies_true, and_true]
    exact ⟨hid.depth, hcategory.depth, htier.depth, hstatus.depth, hchecks.depth, hnotes.depth,
      hreviewer.depth, htime.depth⟩
  · obtain ⟨given, hgiven, hfind⟩ := Rereads.fields (rfl : i.toValue = _)
      (rfl : _ = ["record_id", "category", "risk_tier", "review_status", "checklist", "notes",
        "reviewer", "reviewed_at"]) (by decide)
    simp only [List.forall_mem_cons, List.not_mem_nil, false_implies, implies_true, and_true]
      at hfind
    obtain ⟨hfind₁, hfind₂, hfind₃, hfind₄, hfind₅, hfind₆, hfind₇, hfind₈⟩ := hfind
    rw [decode, hgiven]
    apply (Decode.bind_of_eq_some (hid.required hfind₁) _).trans
    apply (Decode.bind_of_eq_some (hcategory.required hfind₂) _).trans
    apply (Decode.bind_of_eq_some (htier.orElse hfind₃ _) _).trans
    apply (Decode.bind_of_eq_some (hstatus.orElse hfind₄ _) _).trans
    apply (Decode.bind_of_eq_some (hchecks.orElse hfind₅ _) _).trans
    apply (Decode.bind_of_eq_some (hnotes.orElse hfind₆ _) _).trans
    apply (Decode.bind_of_eq_some (hreviewer.orElse hfind₇ _) _).trans
    apply (Decode.bind_of_eq_some (htime.orElse hfind₈ _) _).trans
    rfl

end ReviewItem

/-! ### Samples -/

theorem Value.depth_ofOption_le {α : Type} {f : α → Value} (h : ∀ a, (f a).depth = 0)
    (o : Option α) (d : Nat) :
  (Value.ofOption f o).depth ≤ d
  := by
  cases o with
  | none => exact Nat.zero_le d
  | some a => exact (h a).trans_le (Nat.zero_le d)

theorem ReviewItem.depth_toValue_le (i : ReviewItem) :
  i.toValue.depth ≤ 2
  := by
  apply Value.depth_record_le_iff.mpr
  simp only [List.forall_mem_cons, List.not_mem_nil, false_implies, implies_true, and_true]
  refine ⟨Nat.zero_le 1, Nat.zero_le 1, ?tier, Nat.zero_le 1, Value.depth_record_le_iff.mpr ?checks,
    Nat.zero_le 1, ?reviewer, ?time⟩
  case tier => exact Value.depth_ofOption_le (fun _ => rfl) i.tier 1
  case checks =>
    intro f hf
    obtain ⟨e, -, rfl⟩ := List.mem_map.mp hf
    exact Value.depth_ofOption_le (fun _ => rfl) e.2 0
  case reviewer => exact Value.depth_ofOption_le (fun _ => rfl) i.reviewer 1
  case time => exact Value.depth_ofOption_le (fun _ => rfl) i.reviewedAt 1

namespace Sample

theorem depth_toValue_le (s : Sample) :
  s.toValue.depth ≤ 4
  := by
  apply Value.depth_record_le_iff.mpr
  simp only [List.forall_mem_cons, List.not_mem_nil, false_implies, implies_true, and_true]
  refine ⟨Nat.zero_le 3, Nat.zero_le 3, ?policy, Nat.zero_le 3, Nat.zero_le 3,
    Value.depth_record_le_iff.mpr ?counts, Value.depth_list_le_iff.mpr ?ids,
    Value.depth_list_le_iff.mpr ?checklist, Value.depth_list_le_iff.mpr ?items⟩
  case policy => exact (by decide : 1 ≤ 3)
  case counts =>
    intro f hf
    obtain ⟨e, -, rfl⟩ := List.mem_map.mp hf
    exact Nat.zero_le 2
  case ids =>
    intro v hv
    obtain ⟨id, -, rfl⟩ := List.mem_map.mp hv
    exact Nat.zero_le 2
  case checklist =>
    intro v hv
    obtain ⟨c, -, rfl⟩ := List.mem_map.mp hv
    exact (by decide : 1 ≤ 2)
  case items =>
    intro v hv
    obtain ⟨i, -, rfl⟩ := List.mem_map.mp hv
    exact i.depth_toValue_le

/-- The reviews of a sample are found in its value. -/
theorem decodeFile_toValue {s : Sample} (h : ∀ i ∈ s.items, ∀ t ∈ i.reviewedAt, t.IsValid) :
  ReviewSummary.decodeFile (Json.reread s.toValue) = some s.items
  := by
  have hitems := Rereads.list_self fun i hi => ReviewItem.rereads (h i hi)
  obtain ⟨given, hgiven, hfind⟩ := Rereads.fields_among (rfl : s.toValue = _)
    (rfl : _ = ["seed", "fraction", "policy", "period", "generated_at", "stratum_counts",
      "record_ids", "checklist", "items"]) (by decide) ["items"]
  rw [ReviewSummary.decodeFile, hgiven]
  exact hitems.orElse (hfind ("items", _) (by simp) (by simp)) []

/-- The reviews of a sample are read from the document that it is written to. -/
theorem decodeFile_render {s : Sample} (h : ∀ i ∈ s.items, ∀ t ∈ i.reviewedAt, t.IsValid) :
  (Json.ofBytes? (Text.encode (Json.render s.toValue))).bind ReviewSummary.decodeFile
    = some s.items
  := by
  have hdepth : (Json.reread s.toValue).depth ≤ Json.maxDepth :=
    (Json.depth_reread_le _).trans ((depth_toValue_le s).trans (by decide))
  exact Rereads.ofBytes?_render ⟨hdepth, decodeFile_toValue h⟩

end Sample

end CorpusAudit
