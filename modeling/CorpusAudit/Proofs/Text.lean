import CorpusAudit.Text.Blank
import CorpusAudit.Text.Bytes

/-!
# Facts about encoded texts

The bytes of a text are those of its characters.  A byte below 128 is always a character
of its own, so what is asked about such bytes may be asked about characters.
-/

namespace CorpusAudit.Text

theorem encode_eq_flatMap (s : String) :
  encode s = s.toList.flatMap String.utf8EncodeChar
  := by
  rw [encode, ← String.utf8Encode_toList, List.utf8Encode]
  simp

theorem encode_append (s t : String) :
  encode (s ++ t) = encode s ++ encode t
  := by
  simp [encode_eq_flatMap]

theorem encode_ofList (cs : List Char) :
  encode (String.ofList cs) = cs.flatMap String.utf8EncodeChar
  := by
  rw [encode_eq_flatMap, String.toList_ofList]

theorem encode_nil :
  encode (String.ofList []) = []
  := by
  rw [encode_ofList, List.flatMap_nil]

/-- The bytes of a character: itself, or bytes that are no characters. -/
theorem mem_utf8EncodeChar {c : Char} {b : UInt8} (h : b ∈ String.utf8EncodeChar c) :
  c.toNat = b.toNat ∨ 128 ≤ b.toNat
  := by
  simp only [String.utf8EncodeChar] at h
  split at h
  · next hc =>
    left
    obtain rfl : b = _ := List.mem_singleton.mp h
    rw [UInt8.toNat_ofNat', Nat.mod_eq_of_lt (by omega)]
    rfl
  · right
    split at h
    · simp only [List.mem_cons, List.not_mem_nil, or_false] at h
      rcases h with rfl | rfl <;> rw [UInt8.toNat_ofNat'] <;> omega
    · split at h
      · simp only [List.mem_cons, List.not_mem_nil, or_false] at h
        rcases h with rfl | rfl | rfl <;> rw [UInt8.toNat_ofNat'] <;> omega
      · simp only [List.mem_cons, List.not_mem_nil, or_false] at h
        rcases h with rfl | rfl | rfl | rfl <;> rw [UInt8.toNat_ofNat'] <;> omega

/-- A text whose characters do not include a line feed has no line feed among its bytes. -/
theorem lineFeed_not_mem_encode {cs : List Char} (h : '\n' ∉ cs) :
  0x0A ∉ encode (String.ofList cs)
  := by
  intro hmem
  rw [encode_ofList, List.mem_flatMap] at hmem
  obtain ⟨c, hc, hb⟩ := hmem
  rcases mem_utf8EncodeChar hb with heq | hge
  · obtain rfl : c = '\n' := Char.toNat_inj.mp heq
    exact h hc
  · exact absurd hge (by decide)

/-- A text all of whose bytes are blank consists of blank characters. -/
theorem eq_of_isBlankByte {s : String} (h : (encode s).all isBlankByte = true) {c : Char}
    (hc : c ∈ s.toList) :
  c = ' ' ∨ c = '\t' ∨ c = '\n' ∨ c = '\x0c' ∨ c = '\r'
  := by
  rw [encode_eq_flatMap] at h
  obtain ⟨b, hb⟩ := List.exists_mem_of_ne_nil _ (String.utf8EncodeChar_ne_nil (c := c))
  have hblank := List.all_eq_true.mp h b (List.mem_flatMap.mpr ⟨c, hc, hb⟩)
  simp only [isBlankByte, Bool.or_eq_true, decide_eq_true_eq] at hblank
  rcases mem_utf8EncodeChar hb with heq | hge
  · rcases hblank with (((rfl | rfl) | rfl) | rfl) | rfl
    · exact Or.inl (Char.toNat_inj.mp heq)
    · exact Or.inr (Or.inl (Char.toNat_inj.mp heq))
    · exact Or.inr (Or.inr (Or.inl (Char.toNat_inj.mp heq)))
    · exact Or.inr (Or.inr (Or.inr (Or.inl (Char.toNat_inj.mp heq))))
    · exact Or.inr (Or.inr (Or.inr (Or.inr (Char.toNat_inj.mp heq))))
  · rcases hblank with (((rfl | rfl) | rfl) | rfl) | rfl <;> exact absurd hge (by decide)

/-! ### Bytes that are characters -/

/-- The character of a byte below 128. -/
def characterOf (b : UInt8) : Char :=
  Char.ofNat b.toNat

variable {b : UInt8}

theorem utf8EncodeChar_characterOf (h : b.toNat < 128) :
  String.utf8EncodeChar (characterOf b) = [b]
  := by
  have hval : (characterOf b).val.toNat = b.toNat := by
    rw [characterOf, Char.ofNat, dif_pos (Or.inl (by omega))]
    rfl
  rw [String.utf8EncodeChar, hval, if_pos (by omega)]
  simp

/-- A byte below 128 at the front is the first character of a text. -/
theorem encode_eq_cons_iff (h : b.toNat < 128) {bytes : Bytes} {cs : List Char} :
  encode (String.ofList cs) = b :: bytes
    ↔ ∃ cs', cs = characterOf b :: cs' ∧ encode (String.ofList cs') = bytes
  := by
  simp only [encode_ofList]
  constructor
  · intro hbytes
    cases cs with
    | nil => simp at hbytes
    | cons c cs =>
      rw [List.flatMap_cons] at hbytes
      obtain ⟨b', more, hmore⟩ := List.exists_cons_of_ne_nil (String.utf8EncodeChar_ne_nil (c := c))
      rw [hmore, List.cons_append, List.cons.injEq] at hbytes
      obtain ⟨rfl, hbytes⟩ := hbytes
      have hmem : b' ∈ String.utf8EncodeChar c := by simp [hmore]
      have hc : c.toNat = b'.toNat := by
        rcases mem_utf8EncodeChar hmem with hc | hc
        · exact hc
        · omega
      obtain rfl : c = characterOf b' := by rw [characterOf, ← hc, Char.ofNat_toNat]
      rw [utf8EncodeChar_characterOf h, List.cons.injEq] at hmore
      refine ⟨cs, rfl, ?_⟩
      rw [← hbytes, ← hmore.2, List.nil_append]
  · rintro ⟨cs', rfl, rfl⟩
    rw [List.flatMap_cons, utf8EncodeChar_characterOf h, List.singleton_append]

/-- A byte below 128 is a symbol of its own, whatever bytes follow. -/
theorem symbols_cons (h : b.toNat < 128) (bytes : Bytes) :
  symbols (b :: bytes) = some (characterOf b) :: symbols bytes
  := by
  cases hdecode : decode? bytes with
  | some s =>
    have hbytes : encode (String.ofList s.toList) = bytes := by
      rw [String.ofList_toList, eq_encode_of_decode? hdecode]
    rw [← (encode_eq_cons_iff h).mpr ⟨s.toList, rfl, hbytes⟩, ← hbytes, symbols_encode,
      symbols_encode, String.toList_ofList, String.toList_ofList, List.map_cons]
  | none =>
    have hnone : decode? (b :: bytes) = none := by
      rw [← Option.not_isSome_iff_eq_none, Option.isSome_iff_exists]
      rintro ⟨t, ht⟩
      have hbytes := eq_encode_of_decode? ht
      rw [← String.ofList_toList (s := t), eq_comm, encode_eq_cons_iff h] at hbytes
      obtain ⟨cs, -, rfl⟩ := hbytes
      simp [decode?_encode] at hdecode
    have hsingle : decode? [b] = some (String.ofList [characterOf b]) := by
      have hbytes : encode (String.ofList [characterOf b]) = [b] := by
        rw [encode_ofList, List.flatMap_singleton, utf8EncodeChar_characterOf h]
      rw [← hbytes, decode?_encode]
    have hcharacter : character? b bytes = some (characterOf b, 0) := by
      simp [character?, hsingle]
    rw [symbols, hnone, symbols, hdecode]
    simp only
    rw [salvage, hcharacter]
    simp

end CorpusAudit.Text
