import CorpusAudit.Json.Writer
import CorpusAudit.Proofs.Decimal.Digits
import CorpusAudit.Proofs.Decimal.Shortest
import CorpusAudit.Proofs.Float
import CorpusAudit.Proofs.Json.Locality

/-!
# Numbers that are written and read

Every number is written as a numeral of the grammar, so it is read as the value of that
numeral: an integer of 64 bits as itself, a finite floating-point number as what its
shortest digits denote.
-/

namespace CorpusAudit.Json

open Text (Symbol)
open Decimal (Binary IsDigits IsWhole Scaled)

namespace Numeral

/-- A numeral of the grammar. -/
structure WellFormed (n : Numeral) : Prop where
  whole : IsWhole n.whole
  fraction : if n.hasPoint then IsDigits n.fraction else n.fraction = []
  exponent : ∀ e ∈ n.exponent, IsDigits e.2

/-- The point and the digits after it. -/
def fractionText (n : Numeral) : List Char :=
  if n.hasPoint then '.' :: n.fraction else []

/-- The exponent as it is written, always with its sign. -/
def exponentText (n : Numeral) : List Char :=
  match n.exponent with
  | none => []
  | some (negative, ds) => 'e' :: (if negative then '-' else '+') :: ds

/-- A numeral without its minus sign. -/
def text (n : Numeral) : List Char :=
  n.whole ++ n.fractionText ++ n.exponentText

/-- A numeral with its minus sign, if it has one. -/
def signedText (n : Numeral) : List Char :=
  (if n.negative then ['-'] else []) ++ n.text

end Numeral

/-! ### Reading the text of a numeral -/

theorem digits_text {ds : List Char} (h : IsDigits ds) {rest : List Symbol}
    (hrest : ∀ c ∈ rest.head?, isDigit c = false) :
  digits (ds.map some ++ rest) = some (ds, rest)
  := by
  have htake : (ds.map some ++ rest).takeWhile isDigit = ds.map some
      ∧ (ds.map some ++ rest).dropWhile isDigit = rest := by
    induction ds with
    | nil => exact absurd rfl h.1
    | cons c ds ih =>
      have hc : isDigit (some c) = true := h.2 c List.mem_cons_self
      by_cases hds : ds = []
      · subst hds
        cases rest with
        | nil => simp [hc]
        | cons d rest => simp [hc, hrest d rfl]
      · have := ih ⟨hds, fun d hd => h.2 d (List.mem_cons_of_mem _ hd)⟩
        simp [hc, this]
  rw [digits, htake.1, htake.2]
  simp [h.1]

theorem wholePart_text {ds : List Char} (h : IsWhole ds) {rest : List Symbol}
    (hrest : ∀ c ∈ rest.head?, isDigit c = false) :
  wholePart (ds.map some ++ rest) = some (ds, rest)
  := by
  by_cases hzero : ds.head? = some '0'
  · rw [h.2 hzero]
    rfl
  · rw [wholePart_of_ne, digits_text h.1 hrest]
    obtain ⟨c, cs, rfl⟩ := List.exists_cons_of_ne_nil h.1.1
    simpa using hzero

theorem exponentPart_text {n : Numeral} (h : n.WellFormed) {rest : List Symbol}
    (hrest : Stops rest) :
  exponentPart (n.exponentText.map some ++ rest) = some (n.exponent, rest)
  := by
  have hdigits : ∀ c ∈ rest.head?, isDigit c = false := fun c hc => (hrest c hc).1
  cases he : n.exponent with
  | none =>
    rw [Numeral.exponentText, he]
    exact exponentPart_of_ne fun c hc => (hrest c hc).2.2
  | some e =>
    obtain ⟨negative, ds⟩ := e
    have hds := digits_text (h.exponent _ he) hdigits
    rw [Numeral.exponentText, he]
    cases negative <;> simp [exponentPart, signPart, hds]

theorem head?_exponentText (n : Numeral) {rest : List Symbol} (hrest : Stops rest) :
  ∀ c ∈ (n.exponentText.map some ++ rest).head?, isDigit c = false ∧ c ≠ some '.'
  := by
  intro c hc
  cases he : n.exponent with
  | none =>
    rw [Numeral.exponentText, he] at hc
    have := hrest c hc
    exact ⟨this.1, this.2.1⟩
  | some e =>
    rw [Numeral.exponentText, he] at hc
    obtain rfl : some 'e' = c := by simpa using hc
    decide

theorem fractionPart_text {n : Numeral} (h : n.WellFormed) {rest : List Symbol}
    (hrest : ∀ c ∈ rest.head?, isDigit c = false ∧ c ≠ some '.') :
  fractionPart (n.fractionText.map some ++ rest) = some ((n.hasPoint, n.fraction), rest)
  := by
  have hfraction := h.fraction
  cases hpoint : n.hasPoint with
  | true =>
    rw [hpoint, if_pos rfl] at hfraction
    rw [Numeral.fractionText, hpoint, if_pos rfl]
    have hds := digits_text hfraction fun c hc => (hrest c hc).1
    simp [fractionPart, hds]
  | false =>
    rw [hpoint, if_neg (by simp)] at hfraction
    rw [Numeral.fractionText, hpoint, if_neg (by simp), hfraction]
    apply fractionPart_of_ne
    intro heq
    exact (hrest _ heq).2 rfl

/-- A numeral of the grammar is read from its text. -/
theorem numeral_text {n : Numeral} (h : n.WellFormed) {rest : List Symbol} (hrest : Stops rest) :
  numeral n.negative (n.text.map some ++ rest) = some (n, rest)
  := by
  have hexponent := head?_exponentText n hrest
  have hfraction : ∀ c ∈ (n.fractionText.map some ++ (n.exponentText.map some ++ rest)).head?,
      isDigit c = false := by
    intro c hc
    cases hpoint : n.hasPoint with
    | true =>
      rw [Numeral.fractionText, hpoint, if_pos rfl] at hc
      obtain rfl : some '.' = c := by simpa using hc
      decide
    | false =>
      rw [Numeral.fractionText, hpoint, if_neg (by simp)] at hc
      exact (hexponent c hc).1
  simp only [Numeral.text, List.map_append, List.append_assoc, numeral, Option.bind_eq_bind,
    wholePart_text h.whole hfraction, fractionPart_text h hexponent, exponentPart_text h hrest,
    Option.bind_some]

/-- A signed numeral is read as its value. -/
theorem scalar_text {n : Numeral} (h : n.WellFormed) {rest : List Symbol} (hrest : Stops rest) :
  scalar (n.signedText.map some ++ rest) = some (n.value?.getD .unreadable, rest)
  := by
  have hnumber : number n.negative (n.text.map some ++ rest)
      = some (n.value?.getD .unreadable, rest) := by
    rw [number, numeral_text h hrest]
    rfl
  cases hnegative : n.negative with
  | true =>
    rw [hnegative] at hnumber
    simp only [Numeral.signedText, hnegative, if_true, List.map_cons, List.cons_append]
    exact hnumber
  | false =>
    rw [hnegative] at hnumber
    obtain ⟨c, cs, hcs, hc⟩ := exists_digit_of_number hnumber
    simp only [Numeral.signedText, hnegative, Bool.false_eq_true, if_false, List.nil_append]
    rw [hcs, scalar_of_isDigit hc, ← hcs, hnumber]

/-! ### The numerals of numbers -/

namespace Numeral

/-- The numeral of an integer. -/
def ofInt (n : Int) : Numeral :=
  ⟨n < 0, Nat.toDigits 10 n.natAbs, [], false, none⟩

/-- The numeral of a decimal with its point in its place. -/
def positional (negative : Bool) (s : Scaled) : Numeral :=
  let digits := Nat.toDigits 10 s.digits
  if 0 ≤ s.exponent then
    ⟨negative, digits ++ List.replicate s.exponent.toNat '0', ['0'], true, none⟩
  else
    let places := (-s.exponent).toNat
    let padded := List.replicate (places + 1 - digits.length) '0' ++ digits
    ⟨negative, padded.take (padded.length - places), padded.drop (padded.length - places), true,
      none⟩

/-- The numeral of a decimal with one digit before the point and an exponent. -/
def scientific (negative : Bool) (s : Scaled) : Numeral :=
  let digits := Nat.toDigits 10 s.digits
  let e := s.exponent + digits.length - 1
  ⟨negative, digits.take 1, digits.drop 1, digits.length ≠ 1,
    some (e < 0, Nat.toDigits 10 e.natAbs)⟩

/-- The numeral of a finite number: its shortest digits. -/
def ofFloat (x : Float) : Numeral :=
  let s := (Binary.ofFloat x).shortest .toEven
  let e := s.exponent + (Nat.toDigits 10 s.digits).length - 1
  if s.digits = 0 ∨ -5 ≤ e ∧ e < 16 then positional (Decimal.isNegative x) s
  else scientific (Decimal.isNegative x) s

theorem wellFormed_ofInt (n : Int) :
  (ofInt n).WellFormed
  where
    whole := Decimal.isWhole_toDigits _
    fraction := rfl
    exponent := by simp [ofInt]

theorem wellFormed_positional (negative : Bool) {s : Scaled} (h : s.digits = 0 → s.exponent = 0) :
  (positional negative s).WellFormed
  := by
  rw [positional]
  simp only
  split
  · refine ⟨Decimal.isWhole_append_zeros ?_, ?_, by simp⟩
    · intro hzero
      rw [h hzero]
      rfl
    · exact ⟨by simp, by simp [Decimal.isDigit]⟩
  · next he =>
    refine ⟨Decimal.isWhole_take_zeroPadded _ s.digits, ?_, by simp⟩
    exact Decimal.isDigits_drop_zeroPadded (by omega) s.digits

theorem wellFormed_scientific (negative : Bool) (s : Scaled) :
  (scientific negative s).WellFormed
  := by
  have hdigits := Decimal.isDigits_toDigits s.digits
  have hwhole := Decimal.isWhole_toDigits s.digits
  have htake : (Nat.toDigits 10 s.digits).take 1 ≠ [] := by
    intro htake
    rcases List.take_eq_nil_iff.mp htake with h | h
    · exact absurd h (by decide)
    · exact hdigits.1 h
  refine ⟨⟨⟨htake, fun c hc => hdigits.2 c (List.mem_of_mem_take hc)⟩, ?_⟩, ?_, ?_⟩
  · intro hhead
    obtain ⟨c, cs, hcs⟩ := List.exists_cons_of_ne_nil hdigits.1
    simp only [scientific, hcs, List.take_succ_cons, List.take_zero, List.head?_cons,
      Option.some.injEq] at hhead ⊢
    rw [hhead]
  · obtain ⟨c, cs, hcs⟩ := List.exists_cons_of_ne_nil hdigits.1
    simp only [scientific, hcs]
    cases cs with
    | nil => simp
    | cons d ds =>
      rw [if_pos (by simp)]
      refine ⟨by simp, ?_⟩
      intro e he
      apply hdigits.2 e
      rw [hcs]
      exact List.mem_of_mem_drop he
  · simp only [scientific, Option.mem_def, Option.some.injEq, forall_eq']
    exact Decimal.isDigits_toDigits _

theorem wellFormed_ofFloat (x : Float) :
  (ofFloat x).WellFormed
  := by
  rw [ofFloat]
  split
  · exact wellFormed_positional _ Binary.exponent_shortest
  · exact wellFormed_scientific _ _

end Numeral

/-- A numeral has no control characters. -/
theorem le_toNat_of_mem_signedText {n : Numeral} (h : n.WellFormed) {c : Char}
    (hc : c ∈ n.signedText) :
  0x20 ≤ c.toNat
  := by
  have hdigit {ds : List Char} (hds : ∀ c ∈ ds, Decimal.isDigit c = true) (hmem : c ∈ ds) :
      0x20 ≤ c.toNat := by
    have := hds c hmem
    simp only [Decimal.isDigit, Bool.and_eq_true, decide_eq_true_eq, Char.le_def] at this
    exact Nat.le_trans (by decide) (UInt32.le_iff_toNat_le.mp this.1)
  simp only [Numeral.signedText, Numeral.text, List.mem_append] at hc
  rcases hc with hc | (hc | hc) | hc
  · split at hc
    · rw [List.mem_singleton.mp hc]
      decide
    · simp at hc
  · exact hdigit h.whole.1.2 hc
  · have hfraction := h.fraction
    rw [Numeral.fractionText] at hc
    split at hc
    · next hpoint =>
      rw [if_pos hpoint] at hfraction
      rcases List.mem_cons.mp hc with rfl | hc
      · decide
      · exact hdigit hfraction.2 hc
    · simp at hc
  · cases he : n.exponent with
    | none => simp [Numeral.exponentText, he] at hc
    | some e =>
      rw [Numeral.exponentText, he] at hc
      rcases List.mem_cons.mp hc with rfl | hc
      · decide
      · rcases List.mem_cons.mp hc with rfl | hc
        · split <;> decide
        · exact hdigit (h.exponent e he).2 hc

/-! ### The values of numerals -/

/-- Digits that follow a number make it larger, place by place. -/
theorem mul_pow_le_foldl_digits (n : Nat) (ds : List Char) :
  n * 10 ^ ds.length ≤ ds.foldl (fun n c => n * 10 + Decimal.digitValue c) n
  := by
  induction ds generalizing n with
  | nil => exact Nat.le_of_eq (Nat.mul_one n)
  | cons c ds ih =>
    apply Nat.le_trans _ (ih _)
    rw [List.length_cons, Nat.pow_succ', ← Nat.mul_assoc]
    exact Nat.mul_le_mul_right _ (Nat.le_add_right _ _)

theorem le_foldl_digits (n : Nat) (ds : List Char) :
  n ≤ ds.foldl (fun n c => n * 10 + Decimal.digitValue c) n
  := Nat.le_trans (Nat.le_mul_of_pos_right n (Nat.pow_pos (by decide)))
    (mul_pow_le_foldl_digits n ds)

/-- The significant digits of a number, with zeros for the others. -/
theorem absorb_le (n : Nat) (ds : List Char) :
  (absorb n ds).1 * 10 ^ (absorb n ds).2.length
    ≤ ds.foldl (fun n c => n * 10 + Decimal.digitValue c) n
  := by
  induction ds generalizing n with
  | nil => exact Nat.le_of_eq (Nat.mul_one n)
  | cons c ds ih =>
    simp only [absorb]
    split
    · exact ih _
    · exact mul_pow_le_foldl_digits n (c :: ds)

theorem length_absorb_le (n : Nat) (ds : List Char) :
  (absorb n ds).2.length ≤ ds.length
  := by
  induction ds generalizing n with
  | nil => exact Nat.le_refl 0
  | cons d ds ih =>
    simp only [absorb]
    split
    · exact Nat.le_trans (ih _) (Nat.le_succ _)
    · exact Nat.le_refl _

/-- Digits that stand for a number of 64 bits are all significant. -/
theorem absorb_eq {n : Nat} {ds : List Char}
    (h : ds.foldl (fun n c => n * 10 + Decimal.digitValue c) n < UInt64.size) :
  absorb n ds = (ds.foldl (fun n c => n * 10 + Decimal.digitValue c) n, [])
  := by
  induction ds generalizing n with
  | nil => rfl
  | cons c ds ih =>
    rw [List.foldl_cons] at h
    have hnext := Nat.lt_of_le_of_lt (le_foldl_digits _ ds) h
    simp only [absorb]
    rw [if_pos hnext, ih h, List.foldl_cons]

theorem absorb_zero {ds : List Char} (h : Decimal.valueOf 10 ds < UInt64.size) :
  absorb 0 ds = (Decimal.valueOf 10 ds, [])
  := absorb_eq h

/-- A natural number of 64 bits is the value of its numeral. -/
theorem Numeral.value?_ofInt {n : Nat} (h : n < UInt64.size) :
  (Numeral.ofInt n).value? = some (.int n)
  := by
  have habsorb : absorb 0 (Nat.toDigits 10 n) = (n, []) := by
    rw [absorb_zero (by rwa [Decimal.valueOf_toDigits]), Decimal.valueOf_toDigits]
  simp [Numeral.value?, Numeral.ofInt, habsorb]

/-! ### The texts of numbers -/

theorem intText_eq (n : Int) :
  intText n = (Numeral.ofInt n).signedText
  := by
  by_cases h : n < 0 <;>
    simp [intText, Numeral.ofInt, Numeral.signedText, Numeral.text, Numeral.fractionText,
      Numeral.exponentText, h]

theorem layPositional_eq (negative : Bool) (s : Scaled) :
  Decimal.dataStyle.layPositional s = (Numeral.positional negative s).text
  := by
  simp only [Decimal.NumberStyle.layPositional, Numeral.positional]
  split
  · simp [Numeral.text, Numeral.fractionText, Numeral.exponentText, Decimal.dataStyle]
  · next he =>
    have hplaces : (-s.exponent).toNat ≠ 0 := by omega
    simp [Numeral.text, Numeral.fractionText, Numeral.exponentText, Decimal.placePoint, hplaces]

theorem layScientific_eq (negative : Bool) (s : Scaled) :
  Decimal.layScientific s = (Numeral.scientific negative s).text
  := by
  obtain ⟨c, cs, hcs⟩ := List.exists_cons_of_ne_nil (Decimal.isDigits_toDigits s.digits).1
  simp only [Decimal.layScientific, Numeral.scientific, hcs]
  cases cs <;>
    simp [Numeral.text, Numeral.fractionText, Numeral.exponentText]

/-- A finite number is written as its numeral. -/
theorem floatText_eq {x : Float} (h : x.isFinite = true) :
  floatText x = (Numeral.ofFloat x).signedText
  := by
  obtain ⟨hnan, hinf⟩ := (isFinite_iff x).mp h
  have hsign : (Numeral.ofFloat x).negative = Decimal.isNegative x := by
    rw [Numeral.ofFloat]
    simp only [Numeral.positional]
    split
    · split <;> rfl
    · rfl
  have hlay : Decimal.dataStyle.lay (Binary.ofFloat x) = (Numeral.ofFloat x).text := by
    simp only [Numeral.ofFloat]
    rw [apply_ite Numeral.text, ← layPositional_eq, ← layScientific_eq]
    rfl
  rw [floatText, if_pos h, Decimal.data, Decimal.withSign, hnan, hinf, if_neg (by simp),
    if_neg (by simp), hlay, String.toList_ofList, Decimal.signText, Numeral.signedText, hsign]
  simp

end CorpusAudit.Json
