import CorpusAudit.Proofs.Json.Ranges
import CorpusAudit.Proofs.Report.Rereading

/-!
# Reports that were read

A report that is read from a document, whatever the document is, can be written and read
again: its counts fit in 64 bits, its rates and scores are finite, and its time is one of
the calendar.  Its counts need not agree.
-/

namespace CorpusAudit

/-! ### What decoders yield -/

namespace Decode

variable {α : Type} {P : α → Prop} {d : Decoder α}

/-- Whatever is read from a value in range has a property. -/
def Yields (d : Decoder α) (P : α → Prop) : Prop :=
  ∀ {v : Value} {a : α}, v.isInRange = true → d v = some a → P a

theorem yields_natBelow (bound : Nat) :
  Yields (natBelow bound) (· < bound)
  := by
  intro v n _ h
  unfold natBelow at h
  split at h
  · obtain ⟨hk, h⟩ := Option.ite_none_right_eq_some.mp h
    obtain rfl := Option.some.inj h
    omega
  · simp at h

theorem yields_float :
  Yields float (·.isFinite = true)
  := by
  intro v x hv h
  unfold float at h
  split at h
  · obtain rfl := Option.some.inj h
    exact hv
  · next n =>
    obtain rfl := Option.some.inj h
    have hn : n.natAbs < UInt64.size := by simpa [Value.isInRange] using hv
    have hfinite := isFinite_of_isWithin (isWithin_ofNat hn)
    split
    · exact isFinite_neg hfinite
    · exact hfinite
  · simp at h

theorem yields_list (hd : Yields d P) :
  Yields (list d) (∀ a ∈ ·, P a)
  := by
  intro v as hv h a ha
  unfold list at h
  split at h
  · next items =>
    obtain ⟨item, hitem, hread⟩ := exists_mem_of_mapM h ha
    exact hd (Value.isInRange_list.mp hv item hitem) hread
  · simp at h

theorem yields_table (hd : Yields d P) :
  Yields (table d) (∀ e ∈ ·.entries, P e.2)
  := by
  intro v t hv h e he
  unfold table at h
  split at h
  · next fs =>
    obtain ⟨es, hes, h⟩ := Option.bind_eq_some_iff.mp h
    obtain rfl := Option.some.inj h
    have hfind := Table.mem_entries_iff.mp he
    rw [Table.find?_ofList] at hfind
    have hmem : e ∈ es := List.mem_reverse.mp (Table.mem_of_lookup hfind)
    obtain ⟨f, hf, hread⟩ := exists_mem_of_mapM hes hmem
    obtain ⟨a, ha, rfl⟩ := Option.map_eq_some_iff.mp hread
    exact hd (Value.isInRange_record.mp hv f hf) ha
  · simp at h

/-- The fields that are given are in range. -/
def Fields.AreInRange (fs : Fields) : Prop :=
  ∀ f ∈ fs.given, f.2.isInRange = true

theorem yields_fields (dialect : Dialect) (declared : List String) (others : Bool) :
  Yields (fields dialect declared others) Fields.AreInRange
  := by
  intro v fs hv h f hf
  unfold fields at h
  split at h
  · obtain ⟨-, h⟩ := Option.ite_none_right_eq_some.mp h
    obtain rfl := Option.some.inj h
    exact Value.isInRange_record.mp hv f (List.mem_filter.mp hf).1
  · obtain ⟨-, h⟩ := Option.ite_none_right_eq_some.mp h
    obtain rfl := Option.some.inj h
    exact Value.isInRange_list.mp hv f.2 (List.of_mem_zip hf).2
  · simp at h

namespace Fields.AreInRange

variable {fs : Fields} {name : String}

theorem find? (h : fs.AreInRange) {v : Value} (hv : fs.find? name = some v) :
  v.isInRange = true
  := by
  obtain ⟨f, hf, rfl⟩ := Option.map_eq_some_iff.mp hv
  exact h f (List.mem_of_find?_eq_some hf)

theorem required (h : fs.AreInRange) (hd : Yields d P) {a : α}
    (ha : fs.required name d = some a) :
  P a
  := by
  obtain ⟨v, hv, hread⟩ := Option.bind_eq_some_iff.mp ha
  exact hd (h.find? hv) hread

theorem orElse (h : fs.AreInRange) (hd : Yields d P) {a b : α} (hb : P b)
    (ha : fs.orElse name d b = some a) :
  P a
  := by
  unfold Fields.orElse at ha
  split at ha
  · next v hv => exact hd (h.find? hv) ha
  · rwa [← Option.some.inj ha]

theorem optional (h : fs.AreInRange) (hd : Yields d P) {o : Option α}
    (ho : fs.optional name d = some o) :
  ∀ a ∈ o, P a
  := by
  unfold Fields.optional at ho
  split at ho
  · next v hv =>
    unfold option at ho
    split at ho
    · obtain rfl := Option.some.inj ho
      simp
    · obtain ⟨a, ha, rfl⟩ := Option.map_eq_some_iff.mp ho
      intro b hb
      obtain rfl : a = b := by simpa using hb
      exact hd (h.find? hv) ha
  · split at ho
    · simp at ho
    · obtain rfl := Option.some.inj ho
      simp

end Fields.AreInRange

end Decode

open Decode (Yields yields_natBelow yields_float yields_list yields_table yields_fields)

theorem yields_count :
  Yields Decode.count (· < UInt64.size)
  := yields_natBelow UInt64.size

/-! ### The parts of reports -/

theorem CategoryResult.yields_decode (dialect : Decode.Dialect) :
  Yields (CategoryResult.decode dialect) CategoryResult.IsWritable
  := by
  intro v c hv h
  obtain ⟨fs, hfs, h⟩ := Option.bind_eq_some_iff.mp h
  have hrange := yields_fields _ _ _ hv hfs
  obtain ⟨passed, hpassed, h⟩ := Option.bind_eq_some_iff.mp h
  obtain ⟨failed, hfailed, h⟩ := Option.bind_eq_some_iff.mp h
  obtain ⟨passRate, hrate, h⟩ := Option.bind_eq_some_iff.mp h
  obtain ⟨grade, -, h⟩ := Option.bind_eq_some_iff.mp h
  obtain rfl := Option.some.inj h
  exact ⟨hrange.required yields_count hpassed, hrange.required yields_count hfailed,
    hrange.optional yields_float hrate⟩

theorem Suspicion.yields_decode (dialect : Decode.Dialect) :
  Yields (Suspicion.decode dialect) Suspicion.IsWritable
  := by
  intro v s hv h
  obtain ⟨fs, hfs, h⟩ := Option.bind_eq_some_iff.mp h
  have hrange := yields_fields _ _ _ hv hfs
  obtain ⟨feature, -, h⟩ := Option.bind_eq_some_iff.mp h
  obtain ⟨score, hscore, h⟩ := Option.bind_eq_some_iff.mp h
  obtain ⟨failedWith, hfailedWith, h⟩ := Option.bind_eq_some_iff.mp h
  obtain ⟨passedWith, hpassedWith, h⟩ := Option.bind_eq_some_iff.mp h
  obtain ⟨totalFailed, htotalFailed, h⟩ := Option.bind_eq_some_iff.mp h
  obtain ⟨totalPassed, htotalPassed, h⟩ := Option.bind_eq_some_iff.mp h
  obtain rfl := Option.some.inj h
  exact ⟨hrange.required yields_float hscore, hrange.required yields_count hfailedWith,
    hrange.required yields_count hpassedWith, hrange.required yields_count htotalFailed,
    hrange.required yields_count htotalPassed⟩

theorem ByTier.yields_decode {α : Type} {P : α → Prop} {d : Decoder α} (hd : Yields d P) :
  Yields (ByTier.decode d) (fun b => ∀ t, ∀ a ∈ b.get t, P a)
  := by
  intro v b hv h t a ha
  unfold ByTier.decode at h
  split at h
  · next fs =>
    obtain ⟨es, hes, h⟩ := Option.bind_eq_some_iff.mp h
    obtain rfl := Option.some.inj h
    rw [get_of] at ha
    obtain ⟨e, he, rfl⟩ := Option.map_eq_some_iff.mp ha
    have hmem : e ∈ es := List.mem_reverse.mp (List.mem_of_find?_eq_some he)
    obtain ⟨f, hf, hread⟩ := Decode.exists_mem_of_mapM hes hmem
    obtain ⟨u, -, hread⟩ := Option.bind_eq_some_iff.mp hread
    obtain ⟨b, hb, hread⟩ := Option.bind_eq_some_iff.mp hread
    obtain rfl := Option.some.inj hread
    exact hd (Value.isInRange_record.mp hv f hf) hb
  · simp at h

theorem Time.yields_decode :
  Yields Time.decode Time.Instant.IsValid
  := by
  intro v t _ h
  obtain ⟨s, -, h⟩ := Option.bind_eq_some_iff.mp h
  exact Time.isValid_of_parse? h

/-! ### Reports -/

namespace Report

/-- A report that is read from a value in range can be written and read again. -/
theorem yields_decode :
  Yields decode IsWritable
  := by
  intro v r hv h
  obtain ⟨fs, hfs, h⟩ := Option.bind_eq_some_iff.mp h
  have hrange := yields_fields _ _ _ hv hfs
  obtain ⟨version, hversion, h⟩ := Option.bind_eq_some_iff.mp h
  obtain ⟨generatedAt, htime, h⟩ := Option.bind_eq_some_iff.mp h
  obtain ⟨total, htotal, h⟩ := Option.bind_eq_some_iff.mp h
  obtain ⟨passed, hpassed, h⟩ := Option.bind_eq_some_iff.mp h
  obtain ⟨failed, hfailed, h⟩ := Option.bind_eq_some_iff.mp h
  obtain ⟨undetermined, hundetermined, h⟩ := Option.bind_eq_some_iff.mp h
  obtain ⟨transpiled, htranspiled, h⟩ := Option.bind_eq_some_iff.mp h
  obtain ⟨passRate, hrate, h⟩ := Option.bind_eq_some_iff.mp h
  obtain ⟨grade, -, h⟩ := Option.bind_eq_some_iff.mp h
  obtain ⟨byCategory, hcategories, h⟩ := Option.bind_eq_some_iff.mp h
  obtain ⟨risks, hrisks, h⟩ := Option.bind_eq_some_iff.mp h
  obtain ⟨suspicious, hsuspicious, h⟩ := Option.bind_eq_some_iff.mp h
  obtain ⟨recommendations, -, h⟩ := Option.bind_eq_some_iff.mp h
  obtain rfl := Option.some.inj h
  constructor
  · exact hrange.required (yields_natBelow UInt32.size) hversion
  · exact hrange.required Time.yields_decode htime
  · exact hrange.required yields_count htotal
  · exact hrange.required yields_count hpassed
  · exact hrange.required yields_count hfailed
  · exact hrange.required yields_count hundetermined
  · exact hrange.orElse yields_count (by decide) htranspiled
  · exact hrange.optional yields_float hrate
  · exact hrange.required (yields_table (CategoryResult.yields_decode .json)) hcategories
  · exact hrange.orElse (ByTier.yields_decode yields_count) (by simp) hrisks
  · exact hrange.orElse (yields_list (Suspicion.yields_decode .json)) (by simp) hsuspicious

/-- A report that is read from bytes can be written and read again. -/
theorem isWritable_of_ofBytes? {bytes : Bytes} {r : Report}
    (h : (Json.ofBytes? bytes).bind decode = some r) :
  r.IsWritable
  := by
  obtain ⟨v, hv, hr⟩ := Option.bind_eq_some_iff.mp h
  exact yields_decode (Json.isInRange_of_ofBytes? hv) hr

end Report

end CorpusAudit
