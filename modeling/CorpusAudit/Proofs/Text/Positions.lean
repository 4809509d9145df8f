import CorpusAudit.Proofs.Text
import CorpusAudit.Text.Position
import Mathlib

/-!
# Pieces at positions

The bytes of a piece are never found inside a character of a text: where they stand, the text
can be cut before and behind them (`exists_append_of_standsAt`).  Pieces that are to stand one
after the other may be looked for one at a time, each at its first position behind the piece
before it, as the first position leaves the most room for the pieces that follow
(`exists_sliceFrom?`).
-/

namespace CorpusAudit.Text

variable {p s t : String} {ps : List String} {i j : Nat}

/-- The bytes of the piece `p` stand in `s` at position `i`. -/
def StandsAt (p s : String) (i : Nat) : Prop :=
  encode p <+: (encode s).drop i

instance : Decidable (StandsAt p s i) :=
  inferInstanceAs (Decidable (_ <+: _))

/-- From position `i` on the pieces stand in `s` one after the other. -/
def StandInTurn (s : String) : List String → Nat → Prop
  | [], _ => True
  | p :: ps, i => ∃ j, i ≤ j ∧ StandsAt p s j ∧ StandInTurn s ps (j + p.utf8ByteSize)

theorem length_encode (s : String) :
  (encode s).length = s.utf8ByteSize
  := by
  simp [encode]

/-! ### Cutting at a piece -/

/-- A text whose bytes start with those of a piece starts with the piece. -/
theorem exists_append_of_prefix (h : encode p <+: encode t) :
  ∃ b, t = p ++ b
  := by
  obtain ⟨more, hmore⟩ := h
  have hbytes : p.toList.utf8Encode ++ ByteArray.mk more.toArray = t.toList.utf8Encode := by
    apply ByteArray.ext
    apply Array.toList_inj.mp
    simpa [encode] using hmore
  obtain ⟨b, hb⟩ := List.isPrefix_of_utf8Encode_append_eq_utf8Encode _ hbytes
  use String.ofList b
  rw [← String.toList_inj, String.toList_append, String.toList_ofList, hb]

theorem getElem?_encode (s : String) {i : Nat} (hi : i < s.utf8ByteSize) :
  (encode s)[i]? = some (s.getUTF8Byte ⟨i⟩ hi)
  := by
  have hlength : i < (encode s).length := by rwa [length_encode]
  rw [List.getElem?_eq_getElem hlength]
  rfl

/-- Where a piece stands, a character starts. -/
theorem isValid_of_standsAt (hp : p ≠ "") (h : StandsAt p s i) :
  (String.Pos.Raw.mk i).IsValid s
  := by
  have hpos : 0 < p.utf8ByteSize := by
    rwa [Nat.pos_iff_ne_zero, ne_eq, String.utf8ByteSize_eq_zero_iff]
  -- the byte at the position is the first byte of the piece
  have hbyte : (encode s)[i]? = some (p.getUTF8Byte 0 hpos) := by
    obtain ⟨more, hmore⟩ := h
    rw [← Nat.add_zero i, ← List.getElem?_drop, ← hmore, List.getElem?_append_left]
    · exact getElem?_encode p hpos
    · rwa [length_encode]
  have hi : i < s.utf8ByteSize := by
    rw [← length_encode]
    exact List.getElem?_eq_some_iff.mp hbyte |>.1
  rw [getElem?_encode s hi, Option.some.injEq] at hbyte
  rw [String.Pos.Raw.isValid_iff_isUTF8FirstByte]
  right
  use hi
  rw [hbyte]
  exact String.isUTF8FirstByte_getUTF8Byte_zero

/-- A piece stands between characters only. -/
theorem exists_append_of_standsAt (hp : p ≠ "") (h : StandsAt p s i) :
  ∃ a b, s = a ++ (p ++ b) ∧ i = a.utf8ByteSize
  := by
  obtain ⟨a, t, rfl, hi⟩ := String.Pos.Raw.isValid_iff_exists_append.mp (isValid_of_standsAt hp h)
  obtain rfl : i = a.utf8ByteSize := congrArg String.Pos.Raw.byteIdx hi
  rw [StandsAt, encode_append, ← length_encode, List.drop_left] at h
  obtain ⟨b, rfl⟩ := exists_append_of_prefix h
  exact ⟨a, b, rfl, rfl⟩

/-! ### Pieces one after the other -/

theorem standsAt_append (p a t : String) (j : Nat) :
  StandsAt p (a ++ t) (a.utf8ByteSize + j) ↔ StandsAt p t j
  := by
  rw [StandsAt, StandsAt, encode_append, ← length_encode, ← List.drop_drop, List.drop_left]

/-- What stands behind a part of the text does not depend on this part. -/
theorem standInTurn_append (a t : String) (ps : List String) (i : Nat) :
  StandInTurn (a ++ t) ps (a.utf8ByteSize + i) ↔ StandInTurn t ps i
  := by
  induction ps generalizing i with
  | nil => rfl
  | cons p ps ih =>
    constructor
    · rintro ⟨j, hij, hp, hps⟩
      obtain ⟨j, rfl⟩ := Nat.exists_eq_add_of_le (Nat.le_of_add_right_le hij)
      rw [Nat.add_assoc, ih] at hps
      exact ⟨j, Nat.le_of_add_le_add_left hij, (standsAt_append p a t j).mp hp, hps⟩
    · rintro ⟨j, hij, hp, hps⟩
      refine ⟨a.utf8ByteSize + j, Nat.add_le_add_left hij _, (standsAt_append p a t j).mpr hp, ?_⟩
      rwa [Nat.add_assoc, ih]

theorem standInTurn_behind (a p b : String) (ps : List String) :
  StandInTurn (a ++ (p ++ b)) ps (a.utf8ByteSize + p.utf8ByteSize) ↔ StandInTurn b ps 0
  := by
  rw [← String.append_assoc, ← String.utf8ByteSize_append, ← Nat.add_zero (a ++ p).utf8ByteSize,
    standInTurn_append]

/-- Pieces that stand in turn from a later position on also do so from an earlier one on. -/
theorem StandInTurn.of_le (h : StandInTurn s ps j) (hij : i ≤ j) :
  StandInTurn s ps i
  := by
  cases ps with
  | nil => trivial
  | cons p ps =>
    obtain ⟨k, hjk, hp, hps⟩ := h
    exact ⟨k, hij.trans hjk, hp, hps⟩

/-- Pieces stand in turn if the characters of the text can be cut into the pieces and what is
before, between and after them. -/
theorem standInTurn_cons_iff (hp : p ≠ "") {cs : List Char} :
  StandInTurn (.ofList cs) (p :: ps) 0
    ↔ ∃ a b, cs = a ++ (p.toList ++ b) ∧ StandInTurn (.ofList b) ps 0
  := by
  constructor
  · rintro ⟨i, -, hstands, hps⟩
    obtain ⟨a, b, hcut, rfl⟩ := exists_append_of_standsAt hp hstands
    rw [hcut, standInTurn_behind] at hps
    refine ⟨a.toList, b.toList, ?_, by rwa [String.ofList_toList]⟩
    rw [← String.toList_ofList (l := cs), hcut, String.toList_append, String.toList_append]
  · rintro ⟨a, b, rfl, hps⟩
    rw [String.ofList_append, String.ofList_append, String.ofList_toList]
    have hstands : StandsAt p (.ofList a ++ (p ++ .ofList b)) (String.ofList a).utf8ByteSize := by
      rw [← Nat.add_zero (String.utf8ByteSize _), standsAt_append, StandsAt, encode_append,
        List.drop_zero]
      apply List.prefix_append
    exact ⟨_, Nat.zero_le _, hstands, (standInTurn_behind _ p _ ps).mpr hps⟩

/-! ### Pieces that are found -/

theorem isLeast_of_position? (h : position? p s = some i) :
  IsLeast {j | StandsAt p s j} i
  := by
  obtain ⟨hstands, hfirst⟩ := firstAt?_eq_some h
  exact ⟨hstands, fun j hj => hfirst j hj⟩

/-- Without the first of the pieces they do not stand in turn. -/
theorem not_standInTurn_of_position? (h : position? p s = none) :
  ¬ StandInTurn s (p :: ps) i
  := by
  rintro ⟨j, -, hp, -⟩
  exact firstAt?_eq_none h j hp

theorem isSome_position?_iff :
  (position? p s).isSome = true ↔ StandInTurn s [p] 0
  := by
  cases h : position? p s with
  | none => simp [not_standInTurn_of_position? h]
  | some i =>
    simp only [Option.isSome_some, true_iff]
    exact ⟨i, Nat.zero_le i, (isLeast_of_position? h).1, trivial⟩

/-- Behind a piece that is found a character starts, or the text ends. -/
theorem isValid_behind (hp : p ≠ "") (h : position? p s = some i) :
  (String.Pos.Raw.mk (i + p.utf8ByteSize)).IsValid s
  := by
  obtain ⟨a, b, rfl, rfl⟩ := exists_append_of_standsAt hp (isLeast_of_position? h).1
  rw [String.Pos.Raw.isValid_iff_exists_append]
  refine ⟨a ++ p, b, by rw [String.append_assoc], ?_⟩
  simp [String.Pos.Raw.ext_iff]

/-- Behind the first position of a piece the text can be cut, and pieces that stand in turn
behind any other position of it stand in turn in the rest. -/
theorem exists_sliceFrom? (hp : p ≠ "") (h : position? p s = some i) :
  ∃ rest, sliceFrom? s (i + p.utf8ByteSize) = some rest
    ∧ ∀ ps, StandInTurn s (p :: ps) 0 ↔ StandInTurn rest ps 0
  := by
  obtain ⟨hstands, hfirst⟩ := isLeast_of_position? h
  obtain ⟨a, rest, rfl, rfl⟩ := exists_append_of_standsAt hp hstands
  refine ⟨rest, ?_, ?_⟩
  · rw [sliceFrom?_eq_some_iff]
    exact ⟨a ++ p, by rw [String.append_assoc], by rw [String.utf8ByteSize_append]⟩
  · intro ps
    rw [← standInTurn_behind a p rest ps]
    constructor
    · -- any other position is a later one
      rintro ⟨j, -, hj, hps⟩
      exact hps.of_le (Nat.add_le_add_right (hfirst hj) _)
    · intro hps
      exact ⟨a.utf8ByteSize, Nat.zero_le _, hstands, hps⟩

end CorpusAudit.Text
