import CorpusAudit.Text.Bytes

/-!
# Positions in a text

A position in a text is a number of bytes from its start, so it may lie inside a character.
`position? p s` is the first position at which the bytes of `p` stand in `s`, and
`sliceFrom? s i` is the rest of `s` from position `i` on.  A rest is a text only if it is cut off
between two characters: there is none at other positions, and none beyond the end.
-/

namespace CorpusAudit.Text

/-- The first position at which `p` stands in the bytes. -/
def firstAt? (p : Bytes) : Bytes → Option Nat
  | [] => if p.isEmpty then some 0 else none
  | b :: bytes => if p.isPrefixOf (b :: bytes) then some 0 else (firstAt? p bytes).map (· + 1)

/-- The position that is found is the first one at which `p` stands. -/
theorem firstAt?_eq_some {p bytes : Bytes} {i : Nat} (h : firstAt? p bytes = some i) :
  p <+: bytes.drop i ∧ ∀ j, p <+: bytes.drop j → i ≤ j
  := by
  induction bytes generalizing i with
  | nil =>
    rw [firstAt?] at h
    split at h
    · next hp =>
      obtain rfl : 0 = i := by simpa using h
      exact ⟨by simp [List.isEmpty_iff.mp hp], fun _ _ => Nat.zero_le _⟩
    · simp at h
  | cons b bytes ih =>
    rw [firstAt?] at h
    split at h
    · next hp =>
      obtain rfl : 0 = i := by simpa using h
      exact ⟨List.isPrefixOf_iff_prefix.mp hp, fun _ _ => Nat.zero_le _⟩
    · next hp =>
      obtain ⟨i, hi, rfl⟩ := Option.map_eq_some_iff.mp h
      refine ⟨(ih hi).1, ?_⟩
      intro j hj
      cases j with
      | zero => exact absurd (List.isPrefixOf_iff_prefix.mpr hj) hp
      | succ j => exact Nat.succ_le_succ ((ih hi).2 j hj)

/-- If no position is found, then `p` stands nowhere. -/
theorem firstAt?_eq_none {p bytes : Bytes} (h : firstAt? p bytes = none) (i : Nat) :
  ¬ p <+: bytes.drop i
  := by
  induction bytes generalizing i with
  | nil =>
    intro hi
    rw [List.drop_nil, List.prefix_nil] at hi
    simp [firstAt?, hi] at h
  | cons b bytes ih =>
    rw [firstAt?] at h
    split at h
    · simp at h
    · next hp =>
      cases i with
      | zero => exact fun hi => hp (List.isPrefixOf_iff_prefix.mpr hi)
      | succ i => exact ih (Option.map_eq_none_iff.mp h) i

/-- The first position at which a piece stands in a text. -/
def position? (p s : String) : Option Nat :=
  firstAt? (encode p) (encode s)

/-- The rest of a text from a position on. -/
def sliceFrom? (s : String) (i : Nat) : Option String :=
  if h : (String.Pos.Raw.mk i).IsValid s then some (s.sliceFrom (s.pos ⟨i⟩ h)).copy else none

/-- There is a rest exactly where the text can be cut in two. -/
theorem sliceFrom?_eq_some_iff {s t : String} {i : Nat} :
  sliceFrom? s i = some t ↔ ∃ a, s = a ++ t ∧ i = a.utf8ByteSize
  := by
  rw [sliceFrom?]
  constructor
  · intro h
    split at h
    · next hvalid =>
      have hsplits := (s.pos ⟨i⟩ hvalid).splits
      rw [Option.some.injEq] at h
      rw [h] at hsplits
      exact ⟨_, hsplits.eq_append, congrArg String.Pos.Raw.byteIdx hsplits.offset_eq_rawEndPos⟩
    · simp at h
  · rintro ⟨a, rfl, rfl⟩
    have hvalid : (String.Pos.Raw.mk a.utf8ByteSize).IsValid (a ++ t) :=
      String.Pos.Raw.isValid_iff_exists_append.mpr ⟨a, t, rfl, rfl⟩
    rw [dif_pos hvalid, Option.some.injEq]
    exact ((a ++ t).pos _ hvalid).splits.eq_right ⟨rfl, rfl⟩

/-- Inside a character there is no rest. -/
example : sliceFrom? "aé" 1 = some "é" ∧ sliceFrom? "aé" 2 = none := by decide +kernel

end CorpusAudit.Text
