import CorpusAudit.Decimal.Reading
import CorpusAudit.Decimal.Shortest
import Mathlib.Data.List.Induction
import Mathlib.Tactic.Ring

/-!
# Facts about rows of digits

The decimal digits of a natural number are digits, do not start with a zero unless there
is nothing else, and stand for the number, also with zeros in front.
-/

namespace CorpusAudit.Decimal

/-- One digit or more. -/
def IsDigits (ds : List Char) : Prop :=
  ds ≠ [] ∧ ∀ c ∈ ds, isDigit c = true

/-- The digits of a whole number: a zero alone, or digits that do not start with one. -/
def IsWhole (ds : List Char) : Prop :=
  IsDigits ds ∧ (ds.head? = some '0' → ds = ['0'])

theorem isDigit_of_mem_toDigits {n : Nat} {c : Char} (h : c ∈ Nat.toDigits 10 n) :
  isDigit c = true
  := by
  have hc := Nat.isDigit_of_mem_toDigits (by decide) (by decide) h
  simp only [Char.isDigit, Bool.and_eq_true, decide_eq_true_eq] at hc
  simpa [isDigit, Char.le_def] using hc

theorem isDigits_toDigits (n : Nat) :
  IsDigits (Nat.toDigits 10 n)
  := ⟨Nat.toDigits_ne_nil, fun _ => isDigit_of_mem_toDigits⟩

theorem head?_toDigits {n : Nat} (h : (Nat.toDigits 10 n).head? = some '0') :
  n = 0
  := by
  induction n using Nat.strongRecOn with
  | ind n ih =>
    rw [Nat.toDigits_eq_if (by decide)] at h
    split at h
    · simpa using h
    · next hn =>
      have hhead : (Nat.toDigits 10 (n / 10)).head? = some '0' := by
        obtain ⟨c, cs, hcs⟩ := List.exists_cons_of_ne_nil (isDigits_toDigits (n / 10)).1
        rw [hcs] at h ⊢
        exact h
      have := ih (n / 10) (by omega) hhead
      omega

theorem isWhole_toDigits (n : Nat) :
  IsWhole (Nat.toDigits 10 n)
  := by
  refine ⟨isDigits_toDigits n, ?_⟩
  intro h
  rw [head?_toDigits h]
  rfl

theorem digitValue_digitChar {n : Nat} (h : n < 10) :
  digitValue (Nat.digitChar n) = n
  := by
  have hdigit : isDigit (Nat.digitChar n) = true := by
    have : Nat.digitChar n ∈ Nat.toDigits 10 n := by simp [Nat.toDigits_of_lt_base h]
    exact isDigit_of_mem_toDigits this
  rw [digitValue, if_pos hdigit]
  exact Nat.toNat_digitChar_sub_48_of_lt_ten h

/-- The digits of a number stand for it. -/
theorem valueOf_toDigits (n : Nat) :
  valueOf 10 (Nat.toDigits 10 n) = n
  := by
  induction n using Nat.strongRecOn with
  | ind n ih =>
    rw [Nat.toDigits_eq_if (by decide)]
    split
    · next hn => simp [valueOf, digitValue_digitChar hn]
    · next hn =>
      rw [valueOf_concat, ih (n / 10) (by omega), digitValue_digitChar (Nat.mod_lt n (by decide))]
      omega

theorem valueOf_append (base : Nat) (ds es : List Char) :
  valueOf base (ds ++ es) = valueOf base ds * base ^ es.length + valueOf base es
  := by
  induction es using List.reverseRecOn with
  | nil => simp [valueOf]
  | append_singleton es c ih =>
    rw [← List.append_assoc, valueOf_concat, valueOf_concat, ih, List.length_append,
      List.length_singleton, Nat.pow_succ]
    ring

theorem toNat_of_isDigit {c : Char} (h : isDigit c = true) :
  48 ≤ c.toNat ∧ c.toNat ≤ 57
  := by
  simpa [isDigit, Char.le_def, UInt32.le_iff_toNat_le] using h

theorem digitValue_lt {c : Char} (h : isDigit c = true) :
  digitValue c < 10
  := by
  have hhigh := (toNat_of_isDigit h).2
  have hzero : '0'.toNat = 48 := rfl
  rw [digitValue, if_pos h]
  omega

/-- Digits stand for a number below the power of ten of their number. -/
theorem valueOf_lt {ds : List Char} (h : ∀ c ∈ ds, isDigit c = true) :
  valueOf 10 ds < 10 ^ ds.length
  := by
  induction ds using List.reverseRecOn with
  | nil => exact Nat.zero_lt_one
  | append_singleton ds c ih =>
    have hmore := ih fun d hd => h d (List.mem_append_left _ hd)
    have hlast := digitValue_lt (h c (by simp))
    rw [valueOf_concat, List.length_append, List.length_singleton, Nat.pow_succ]
    omega

/-! ### Zeros in front and after -/

/-- A number with zeros in front. -/
def zeroPadded (width n : Nat) : List Char :=
  List.replicate (width - (Nat.toDigits 10 n).length) '0' ++ Nat.toDigits 10 n

theorem isDigit_of_mem_zeros {k : Nat} {c : Char} (h : c ∈ List.replicate k '0') :
  isDigit c = true
  := by
  rw [List.eq_of_mem_replicate h]
  decide

theorem isDigits_zeroPadded (width n : Nat) :
  IsDigits (zeroPadded width n)
  := by
  have hdigits := isDigits_toDigits n
  refine ⟨by simp [zeroPadded, hdigits.1], ?_⟩
  intro c hc
  rcases List.mem_append.mp hc with hc | hc
  · exact isDigit_of_mem_zeros hc
  · exact hdigits.2 c hc

theorem length_zeroPadded {width n : Nat} (hwidth : 0 < width) (h : n < 10 ^ width) :
  (zeroPadded width n).length = width
  := by
  have hle := (Nat.length_toDigits_le_iff (by decide) hwidth).mpr h
  simp only [zeroPadded, List.length_append, List.length_replicate]
  omega

theorem valueOf_zeroPadded (width n : Nat) :
  valueOf 10 (zeroPadded width n) = n
  := by
  have hzeros (k : Nat) : valueOf 10 (List.replicate k '0') = 0 := by
    induction k with
    | zero => rfl
    | succ k ih =>
      rw [List.replicate_succ', valueOf_concat, ih]
      rfl
  rw [zeroPadded, valueOf_append, hzeros, valueOf_toDigits]
  omega

/-- Digits are a whole number with zeros after them, unless they are a zero. -/
theorem isWhole_append_zeros {n k : Nat} (h : n = 0 → k = 0) :
  IsWhole (Nat.toDigits 10 n ++ List.replicate k '0')
  := by
  have hdigits := isDigits_toDigits n
  refine ⟨⟨by simp [hdigits.1], ?_⟩, ?_⟩
  · intro c hc
    rcases List.mem_append.mp hc with hc | hc
    · exact hdigits.2 c hc
    · exact isDigit_of_mem_zeros hc
  · intro hhead
    obtain ⟨c, cs, hcs⟩ := List.exists_cons_of_ne_nil hdigits.1
    have hzero : n = 0 := by
      apply head?_toDigits
      rw [hcs] at hhead ⊢
      exact hhead
    rw [hzero, h hzero]
    rfl

theorem lt_length_zeroPadded (places n : Nat) :
  places < (zeroPadded (places + 1) n).length
  := by
  simp only [zeroPadded, List.length_append, List.length_replicate]
  omega

/-- The digits that are left of some places are a whole number. -/
theorem isWhole_take_zeroPadded (places n : Nat) :
  IsWhole ((zeroPadded (places + 1) n).take ((zeroPadded (places + 1) n).length - places))
  := by
  have hdigits := isDigits_zeroPadded (places + 1) n
  have hlength := lt_length_zeroPadded places n
  refine ⟨⟨?_, fun c hc => hdigits.2 c (List.mem_of_mem_take hc)⟩, ?_⟩
  · apply List.ne_nil_of_length_pos
    simp only [List.length_take]
    omega
  · intro hhead
    by_cases hfew : (Nat.toDigits 10 n).length ≤ places
    · have hone : (zeroPadded (places + 1) n).length - places = 1 := by
        simp only [zeroPadded, List.length_append, List.length_replicate]
        omega
      obtain ⟨c, cs, hcs⟩ := List.exists_cons_of_ne_nil hdigits.1
      rw [hone, hcs] at hhead ⊢
      simpa using hhead
    · -- with this many digits none is put in front, and the first is a zero only if it is alone
      have hnone : zeroPadded (places + 1) n = Nat.toDigits 10 n := by
        rw [zeroPadded, Nat.sub_eq_zero_of_le (by omega)]
        rfl
      rw [hnone, List.head?_take, if_neg (by omega)] at hhead
      obtain rfl : n = 0 := head?_toDigits hhead
      obtain rfl : places = 0 := by simpa using hfew
      rfl

/-- The digits that are right of a point. -/
theorem isDigits_drop_zeroPadded {places : Nat} (h : 0 < places) (n : Nat) :
  IsDigits ((zeroPadded (places + 1) n).drop ((zeroPadded (places + 1) n).length - places))
  := by
  have hlength := lt_length_zeroPadded places n
  refine ⟨?_, fun c hc => (isDigits_zeroPadded _ n).2 c (List.mem_of_mem_drop hc)⟩
  apply List.ne_nil_of_length_pos
  simp only [List.length_drop]
  omega

end CorpusAudit.Decimal
