import CorpusAudit.Proofs.Decode
import CorpusAudit.Proofs.Float.Finiteness
import CorpusAudit.Proofs.Float.Overflow
import CorpusAudit.Proofs.Json.Documents

/-!
# The numbers of documents

Whatever document is read, its integers have 64 bits at most, and its floating-point
numbers are finite: a number out of range is unreadable.
-/

namespace CorpusAudit

/-! ### Values in range -/

namespace Value

mutual

/-- Whether the integers of a value have 64 bits at most and its floating-point numbers are
finite. -/
def isInRange : Value → Bool
  | .int n => n.natAbs < UInt64.size
  | .float x => x.isFinite
  | .list items => areInRange items
  | .record fields => fieldsAreInRange fields
  | _ => true
termination_by structural v => v

/-- Whether the values of a list are in range. -/
def areInRange : List Value → Bool
  | [] => true
  | v :: vs => isInRange v && areInRange vs
termination_by structural vs => vs

/-- Whether the fields of a record are in range. -/
def fieldsAreInRange : List (String × Value) → Bool
  | [] => true
  | (_, v) :: fs => isInRange v && fieldsAreInRange fs
termination_by structural fs => fs

end

theorem isInRange_list {vs : List Value} :
  (list vs).isInRange = true ↔ ∀ v ∈ vs, v.isInRange = true
  := by
  rw [isInRange]
  induction vs with
  | nil => simp [areInRange]
  | cons v vs ih => simp [areInRange, ih]

theorem isInRange_record {fs : List (String × Value)} :
  (record fs).isInRange = true ↔ ∀ f ∈ fs, f.2.isInRange = true
  := by
  rw [isInRange]
  induction fs with
  | nil => simp [fieldsAreInRange]
  | cons f fs ih => rw [fieldsAreInRange, Bool.and_eq_true, ih, List.forall_mem_cons]

mutual

/-- A bound on the nesting leaves a value in range. -/
theorem isInRange_limit : ∀ {v : Value} {d : Nat}, v.isInRange = true → (v.limit d).isInRange = true
  | .list items, 0, _ => rfl
  | .list items, d + 1, h => by
    rw [isInRange] at h
    rw [limit, isInRange, areInRange_limit h]
  | .record fields, 0, _ => rfl
  | .record fields, d + 1, h => by
    rw [isInRange] at h
    rw [limit, isInRange, fieldsAreInRange_limit h]
  | .null, _, h | .bool _, _, h | .int _, _, h | .float _, _, h | .text _, _, h
  | .unreadable, _, h => h

theorem areInRange_limit :
    ∀ {vs : List Value} {d : Nat}, areInRange vs = true → areInRange (limitItems d vs) = true
  | [], _, _ => rfl
  | v :: vs, d, h => by
    simp only [areInRange, Bool.and_eq_true] at h
    rw [limitItems, areInRange, isInRange_limit h.1, areInRange_limit h.2, Bool.and_self]

theorem fieldsAreInRange_limit :
    ∀ {fs : List (String × Value)} {d : Nat}, fieldsAreInRange fs = true →
      fieldsAreInRange (limitFields d fs) = true
  | [], _, _ => rfl
  | (n, v) :: fs, d, h => by
    simp only [fieldsAreInRange, Bool.and_eq_true] at h
    rw [limitFields, fieldsAreInRange, isInRange_limit h.1, fieldsAreInRange_limit h.2,
      Bool.and_self]

end

end Value

namespace Json

open Text (Symbol)

/-! ### Numerals -/

/-- A significand is scaled to a finite number, if at all. -/
theorem isFinite_of_scaleBy {fuel : Nat} {x y : Float} {e n : Int} (hx : IsBelow n x)
    (hn : -1000 ≤ n ∧ n + fuel < 971) (h : scaleBy fuel x e = some y) :
  y.isFinite = true
  := by
  induction fuel generalizing x e n with
  | zero =>
    obtain rfl : x = y := Option.some.inj h
    exact isFinite_of_isBelow hx
  | succ fuel ih =>
    rw [scaleBy] at h
    split at h
    · next hnear =>
      have hpower := (magnitude_power hnear).1
      simp only at h
      split at h
      · obtain rfl := Option.some.inj h
        exact isFinite_of_isBelow (isBelow_div hx hpower (by omega))
      · split at h
        · simp at h
        · next hinf =>
          obtain rfl := Option.some.inj h
          apply isFinite_mul_of_isInf (isFinite_of_isBelow hx)
          · exact isFinite_of_isWithin (Or.inr hpower)
          · simpa using hinf
    · split at h
      · obtain rfl : x = y := Option.some.inj h
        exact isFinite_of_isBelow hx
      · split at h
        · simp at h
        · have hpower := (magnitude_power (Nat.le_refl 308)).1
          exact ih (isBelow_div hx hpower (by omega)) (by omega) h

theorem Numeral.isInRange_value? {n : Numeral} {v : Value} (h : n.value? = some v) :
  v.isInRange = true
  := by
  have hleft := absorb_lt (n := 0) (by decide) n.whole
  rw [value?] at h
  generalize absorb 0 n.whole = left at *
  obtain ⟨significand, more⟩ := left
  simp only at hleft h
  have hcount {k : Nat} (hk : k < UInt64.size) : IsBelow 67 (Float.ofNat k) :=
    isBelow_of_isWithin (isWithin_ofNat hk)
  have hsigned {x : Float} (hx : x.isFinite = true) :
      (Value.float (if n.negative then -x else x)).isInRange = true := by
    rw [Value.isInRange]
    split
    · exact isFinite_neg hx
    · exact hx
  split at h
  · split at h
    · split at h
      · obtain rfl := Option.some.inj h
        rfl
      · split at h
        · obtain rfl := Option.some.inj h
          simpa [Value.isInRange] using hleft
        · obtain rfl := Option.some.inj h
          exact isFinite_neg (isFinite_of_isBelow (hcount hleft))
    · obtain rfl := Option.some.inj h
      simpa [Value.isInRange] using hleft
  · have hright := absorb_lt hleft n.fraction
    generalize absorb significand n.fraction = right at *
    obtain ⟨digits, dropped⟩ := right
    simp only at hright h
    have hscaled {e : Int} (hmap : (scaleBy 4 (Float.ofNat digits) e).map
        (fun x => Value.float (if n.negative then -x else x)) = some v) : v.isInRange = true := by
      obtain ⟨y, hy, rfl⟩ := Option.map_eq_some_iff.mp hmap
      exact hsigned (isFinite_of_scaleBy (hcount hright) (by decide) hy)
    split at h
    · exact hscaled h
    · split at h
      · exact hscaled h
      · split at h
        · obtain rfl := Option.some.inj h
          exact hsigned rfl
        · simp at h

/-! ### Documents -/

variable {α : Type} {P : α → Prop}

/-- Whatever a reader reads has a property. -/
def Yields (r : Reader α) (P : α → Prop) : Prop :=
  ∀ {cs : List Symbol} {a : α} {rest : List Symbol}, r cs = some (a, rest) → P a

theorem yields_number (negative : Bool) :
  Yields (number negative) (·.isInRange = true)
  := by
  intro cs v rest h
  simp only [number, Option.bind_eq_bind, Option.bind_eq_some_iff, Option.some.injEq,
    Prod.mk.injEq] at h
  obtain ⟨⟨n, rest'⟩, -, rfl, -⟩ := h
  cases hvalue : n.value? with
  | none => rfl
  | some v => exact Numeral.isInRange_value? hvalue

theorem isInRange_textValue (cs : List Symbol) :
  (textValue cs).isInRange = true
  := by
  rw [textValue]
  split <;> rfl

theorem yields_scalar :
  Yields scalar (·.isInRange = true)
  := by
  intro cs v rest h
  rcases scalar_inv h with ⟨w, hw, -, rfl⟩ | ⟨cs', s, -, -, rfl⟩ | ⟨cs', -, hv⟩ | hv
  · simp only [words, List.mem_cons, List.not_mem_nil, or_false] at hw
    rcases hw with rfl | rfl | rfl <;> rfl
  · exact isInRange_textValue s
  · exact yields_number true hv
  · exact yields_number false hv

theorem yields_separated {item : Reader α} (hitem : Yields item P) (close : Char) (fuel : Nat) :
  Yields (separated item close fuel) (∀ a ∈ ·, P a)
  := by
  intro cs as rest h
  induction fuel generalizing cs as rest with
  | zero => simp [separated] at h
  | succ fuel ih =>
    obtain ⟨a, cs₁, c, cs₂, ha, -, ⟨-, as', has, rfl⟩ | ⟨-, -, rfl, -⟩⟩ := separated_inv h
    · exact List.forall_mem_cons.mpr ⟨hitem ha, ih has⟩
    · exact List.forall_mem_singleton.mpr (hitem ha)

theorem yields_enclosed {item : Reader α} (hitem : Yields item P) (close : Char) (fuel : Nat) :
  Yields (enclosed item close fuel) (∀ a ∈ ·, P a)
  := by
  intro cs as rest h
  obtain ⟨c, cs', -, ⟨-, rfl, -⟩ | ⟨-, has⟩⟩ := enclosed_inv h
  · exact List.forall_mem_nil P
  · exact yields_separated hitem close fuel has

theorem yields_field {value : Reader Value} {P : Value → Prop} (hvalue : Yields value P) :
  Yields (field value) (P ·.2)
  := by
  intro cs a rest h
  obtain ⟨cs₁, cs₂, cs₃, -, -, -, hv⟩ := field_inv h
  exact hvalue hv

theorem isInRange_recordValue {fields : List (List Symbol × Value)}
    (h : ∀ f ∈ fields, f.2.isInRange = true) :
  (recordValue fields).isInRange = true
  := by
  rw [recordValue]
  split
  · next fs hfs =>
    rw [Value.isInRange_record]
    intro f hf
    obtain ⟨field, hfield, hnamed⟩ := Decode.exists_mem_of_mapM hfs hf
    obtain ⟨name, -, rfl⟩ := Option.map_eq_some_iff.mp hnamed
    exact h field hfield
  · rfl

theorem yields_value (fuel : Nat) :
  Yields (value fuel) (·.isInRange = true)
  := by
  induction fuel with
  | zero => exact yields_scalar
  | succ fuel ih =>
    intro cs v rest h
    rcases value_inv h with hscalar | ⟨cs', items, -, hitems, rfl⟩ | ⟨cs', fields, -, hfields, rfl⟩
    · exact yields_scalar hscalar
    · exact Value.isInRange_list.mpr (yields_enclosed ih _ fuel hitems)
    · exact isInRange_recordValue (yields_enclosed (yields_field ih) _ fuel hfields)

/-- The numbers of a document are in range. -/
theorem isInRange_of_ofBytes? {bytes : Bytes} {v : Value} (h : ofBytes? bytes = some v) :
  v.isInRange = true
  := by
  obtain ⟨w, ⟨rest, hw, -⟩, rfl⟩ := read?_eq_some_iff.mp h
  exact Value.isInRange_limit (yields_value _ hw)

end Json

end CorpusAudit
