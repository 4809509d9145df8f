import CorpusAudit.Proofs.Decimal.Digits
import CorpusAudit.Proofs.Decode
import CorpusAudit.Time.Instant

/-!
# Time stamps that are read back

The time stamp of an instant of the calendar is read as the instant again: every part of
it has as many digits as its reader takes, and is followed by a character that is not a
digit.  Whatever time stamp is read, it is read as an instant of the calendar, also where
its offset leads to another day.
-/

namespace CorpusAudit.Time

open Decimal (IsDigits zeroPadded isDigits_zeroPadded length_zeroPadded valueOf_zeroPadded)

/-! ### Rows of digits -/

theorem toList_padZeros (width n : Nat) :
  (Text.padZeros width n).toList = zeroPadded width n
  := by
  simp [Text.padZeros, zeroPadded, Nat.repr, String.length_ofList]

theorem isBlank_of_isDigit {c : Char} (h : Decimal.isDigit c = true) :
  Text.isBlank c = false
  := by
  simp only [Decimal.isDigit, Bool.and_eq_true, decide_eq_true_eq, Char.le_def] at h
  have hlow : 48 ≤ c.toNat := UInt32.le_iff_toNat_le.mp h.1
  have hhigh : c.toNat ≤ 57 := UInt32.le_iff_toNat_le.mp h.2
  simp [Text.isBlank, Text.blankRanges]
  omega

/-- Digits are not passed over as blanks. -/
theorem skipBlank_digits {ds : List Char} (h : IsDigits ds) (cs : List Char) :
  skipBlank (ds ++ cs) = ds ++ cs
  := by
  obtain ⟨c, ds, rfl⟩ := List.exists_cons_of_ne_nil h.1
  have hc := isBlank_of_isDigit (h.2 c List.mem_cons_self)
  simp [skipBlank, hc]

theorem takeWhile_digits {ds : List Char} (h : ∀ c ∈ ds, Decimal.isDigit c = true)
    {cs : List Char} (hcs : ∀ c ∈ cs.head?, Decimal.isDigit c = false) :
  (ds ++ cs).takeWhile Decimal.isDigit = ds
  := by
  rw [List.takeWhile_append_of_pos h]
  cases cs with
  | nil => simp
  | cons c cs => simp [hcs c rfl]

/-- Digits are taken up to a width, or up to what is no digit. -/
theorem takeWhile_take_digits {width : Nat} {ds : List Char} (h : IsDigits ds)
    (hwidth : ds.length ≤ width) {cs : List Char}
    (hcs : ds.length = width ∨ ∀ c ∈ cs.head?, Decimal.isDigit c = false) :
  ((ds ++ cs).take width).takeWhile Decimal.isDigit = ds
  := by
  have hrest : ∀ c ∈ (cs.take (width - ds.length)).head?, Decimal.isDigit c = false := by
    intro c hc
    rw [List.head?_take] at hc
    split at hc
    · simp at hc
    · next hne => exact hcs.resolve_left (by omega) c hc
  rw [List.take_append, List.take_of_length_le hwidth]
  exact takeWhile_digits h.2 hrest

/-- Digits are read up to the width of their reader, or up to what is no digit. -/
theorem digits_eq {width : Nat} {ds : List Char} (h : IsDigits ds) (hwidth : ds.length ≤ width)
    (cs : List Char) (hcs : ds.length = width ∨ ∀ c ∈ cs.head?, Decimal.isDigit c = false) :
  digits width (ds ++ cs) = some (Decimal.valueOf 10 ds, cs)
  := by
  simp only [digits, takeWhile_take_digits h hwidth hcs]
  rw [if_neg (by simpa using h.1)]
  simp

/-! ### The parts of a time stamp -/

/-- A part of two digits. -/
theorem component_zeroPadded {least most n : Nat} (h : least ≤ n ∧ n ≤ most) (hn : n < 100)
    (cs : List Char) :
  component least most (zeroPadded 2 n ++ cs) = some (n, cs)
  := by
  have hlength := length_zeroPadded (by decide : 0 < 2) hn
  simp only [component, skipBlank_digits (isDigits_zeroPadded 2 n),
    digits_eq (isDigits_zeroPadded 2 n) (Nat.le_of_eq hlength) cs (Or.inl hlength),
    valueOf_zeroPadded, Option.bind_eq_bind, Option.bind_some]
  rw [if_pos h]

/-- A year with a sign has any number of digits. -/
theorem yearPart_sign (negative : Bool) (cs : List Char) :
  yearPart ((if negative then '-' else '+') :: cs)
    = (digits cs.length cs).bind fun p =>
      let year : Int := if negative then -p.1 else p.1
      if isKnownYear year then some (year, p.2) else none
  := by
  cases negative <;> rfl

/-- A year without a sign has four digits at most. -/
theorem yearPart_digits {ds : List Char} (h : IsDigits ds) (cs : List Char) :
  yearPart (ds ++ cs)
    = (digits 4 (ds ++ cs)).bind fun p =>
      if isKnownYear p.1 then some ((p.1 : Int), p.2) else none
  := by
  have hnosign : ∀ c rest, ds ++ cs = c :: rest → c ≠ '-' ∧ c ≠ '+' := by
    intro c rest heq
    obtain ⟨d, ds, rfl⟩ := List.exists_cons_of_ne_nil h.1
    obtain ⟨rfl, -⟩ := List.cons.inj heq
    have hd := h.2 d List.mem_cons_self
    constructor <;> rintro rfl <;> exact absurd hd (by decide)
  rw [yearPart]
  simp only [skipBlank_digits h]
  split
  · next rest heq => exact absurd rfl (hnosign _ _ heq).1
  · next rest heq => exact absurd rfl (hnosign _ _ heq).2
  · rfl

/-- The year, which a minus sign follows. -/
theorem yearPart_yearText {year : Int} (h : isKnownYear year = true) (cs : List Char) :
  yearPart ((yearText year).toList ++ '-' :: cs) = some (year, '-' :: cs)
  := by
  rw [yearText]
  split
  · next hfour =>
    have hdigits := isDigits_zeroPadded 4 year.toNat
    have hlength := length_zeroPadded (by decide : 0 < 4) (by omega : year.toNat < 10 ^ 4)
    have hread := digits_eq hdigits (Nat.le_of_eq hlength) ('-' :: cs) (Or.inl hlength)
    have hyear : ((year.toNat : Nat) : Int) = year := by omega
    rw [toList_padZeros, yearPart_digits hdigits, hread]
    simp only [Option.bind_some, valueOf_zeroPadded, hyear, h, if_true]
  · next hmore =>
    have hread := digits_eq (isDigits_zeroPadded 4 year.natAbs)
      (by simp : (zeroPadded 4 year.natAbs).length
        ≤ (zeroPadded 4 year.natAbs ++ '-' :: cs).length) ('-' :: cs) (Or.inr (by
          intro c hc
          obtain rfl : '-' = c := by simpa using hc
          decide))
    have hsign : (if year < 0 then "-" else "+").toList
        = [if decide (year < 0) then '-' else '+'] := by
      split <;> simp [*]
    have hyear : (if decide (year < 0) then -(year.natAbs : Int) else year.natAbs) = year := by
      by_cases hsign : year < 0
      · rw [decide_eq_true hsign, if_pos rfl]
        omega
      · rw [decide_eq_false hsign, if_neg Bool.false_ne_true]
        omega
    rw [String.toList_append, toList_padZeros, hsign, List.append_assoc, List.singleton_append,
      yearPart_sign, hread]
    simp only [Option.bind_some, valueOf_zeroPadded, hyear, h, if_true]

/-- A fraction of up to nine digits, which a letter follows. -/
theorem fractionPart_zeroPadded {width n : Nat} (hwidth : 0 < width ∧ width ≤ 9)
    (h : n < 10 ^ width) (cs : List Char) :
  fractionPart ('.' :: zeroPadded width n ++ 'Z' :: cs)
    = some (n * Nat.pow 10 (9 - width), 'Z' :: cs)
  := by
  have hdigits := isDigits_zeroPadded width n
  have hlength := length_zeroPadded hwidth.1 h
  have hstop : ∀ c ∈ ('Z' :: cs).head?, Decimal.isDigit c = false := by
    intro c hc
    obtain rfl : 'Z' = c := by simpa using hc
    decide
  have htake := takeWhile_take_digits hdigits (by omega : _ ≤ 9) (Or.inr hstop)
  have hdrop : (zeroPadded width n ++ 'Z' :: cs).dropWhile Decimal.isDigit = 'Z' :: cs := by
    rw [List.dropWhile_append_of_pos hdigits.2]
    rfl
  simp only [List.cons_append, fractionPart, htake, hdrop, valueOf_zeroPadded, hlength]
  rw [if_neg (by simpa using hdigits.1)]

/-- The fraction of a second, which a letter follows. -/
theorem fractionPart_fractionText {nano : Nat} (h : nano < nanosPerSecond) (cs : List Char) :
  fractionPart ((fractionText nano).toList ++ 'Z' :: cs) = some (nano, 'Z' :: cs)
  := by
  have hnano : nano < 1000000000 := h
  have hpoint (s : String) : ("." ++ s).toList = '.' :: s.toList := by
    rw [String.toList_append]
    rfl
  rw [fractionText]
  split
  · next hzero =>
    rw [hzero]
    rfl
  · split
    · next hmillis =>
      rw [hpoint, toList_padZeros, fractionPart_zeroPadded (by decide) (by omega)]
      congr 2
      exact Nat.div_mul_cancel (Nat.dvd_of_mod_eq_zero hmillis)
    · split
      · next hmicros =>
        rw [hpoint, toList_padZeros, fractionPart_zeroPadded (by decide) (by omega)]
        congr 2
        exact Nat.div_mul_cancel (Nat.dvd_of_mod_eq_zero hmicros)
      · rw [hpoint, toList_padZeros, fractionPart_zeroPadded (by decide) (by omega)]
        congr 2
        exact Nat.mul_one nano

/-! ### Time stamps -/

/-- An instant of the calendar; only the last second of a minute has nanoseconds of a
leap second. -/
structure Instant.IsValid (t : Instant) : Prop where
  date : t.date.isValid = true
  year : isKnownYear t.date.year = true
  hour : t.hour < 24
  minute : t.minute < 60
  second : t.second < 60
  nano : t.nano < nanosPerSecond ∨ t.second = 59 ∧ t.nano < 2 * nanosPerSecond

theorem monthLength_le (year : Int) (month : Nat) :
  monthLength year month ≤ 31
  := by
  rw [monthLength]
  split
  · split <;> decide
  · split <;> decide

theorem separator_cons {c : Char} (h : Text.isBlank c = false) (cs : List Char) :
  separator c (c :: cs) = some ((), cs)
  := by
  simp [separator, skipBlank, h]

theorem minusMinutes_zero {t : Instant} (hhour : t.hour < 24) (hminute : t.minute < 60) :
  t.minusMinutes 0 = t
  := by
  have hhour' : ((t.hour : Int) * 60 + t.minute - 0).toNat / 60 = t.hour := by omega
  have hminute' : ((t.hour : Int) * 60 + t.minute - 0).toNat % 60 = t.minute := by omega
  simp only [Instant.minusMinutes]
  rw [if_neg (by omega), if_neg (by omega)]
  simp only [hhour', hminute']

/-- The parts of a time stamp, the second being given as it is written. -/
theorem toList_stamp (t : Instant) :
  t.stamp.toList = (yearText t.date.year).toList ++ '-' :: (zeroPadded 2 t.date.month
    ++ '-' :: (zeroPadded 2 t.date.day ++ 'T' :: (zeroPadded 2 t.hour
    ++ ':' :: (zeroPadded 2 t.minute
    ++ ':' :: (zeroPadded 2 (if nanosPerSecond ≤ t.nano then t.second + 1 else t.second)
    ++ ((fractionText (if nanosPerSecond ≤ t.nano then t.nano - nanosPerSecond else t.nano)).toList
    ++ ['Z']))))))
  := by
  simp only [Instant.stamp, Instant.localText, String.toList_append, toList_padZeros,
    List.append_assoc]
  rfl

/-- The time stamp of an instant is read as the instant. -/
theorem parse?_stamp {t : Instant} (h : t.IsValid) :
  parse? t.stamp = some t
  := by
  have hdate := h.date
  simp only [Day.isValid, Bool.and_eq_true, decide_eq_true_eq] at hdate
  have hday := monthLength_le t.date.year t.date.month
  have hhour := h.hour
  have hminute := h.minute
  have hsecond := h.second
  generalize hs : (if nanosPerSecond ≤ t.nano then t.second + 1 else t.second) = second
  generalize hn : (if nanosPerSecond ≤ t.nano then t.nano - nanosPerSecond else t.nano) = nano
  have hnano : second ≤ 60 ∧ nano < nanosPerSecond
      ∧ (if second = 60 then (⟨t.date, t.hour, t.minute, 59, nano + nanosPerSecond⟩ : Instant)
        else ⟨t.date, t.hour, t.minute, second, nano⟩) = t := by
    rw [← hs, ← hn]
    rcases Nat.lt_or_ge t.nano nanosPerSecond with hlt | hge
    · have hnot : ¬ nanosPerSecond ≤ t.nano := Nat.not_le.mpr hlt
      rw [if_neg hnot, if_neg hnot, if_neg (by omega)]
      exact ⟨by omega, hlt, rfl⟩
    · obtain ⟨hlast, hlt⟩ := h.nano.resolve_left (Nat.not_lt.mpr hge)
      rw [if_pos hge, if_pos hge]
      refine ⟨by omega, by omega, ?_⟩
      rw [if_pos (by omega), Nat.sub_add_cancel hge, ← hlast]
  have hzone : offsetPart (skipBlank ['Z']) = some (0, []) := rfl
  rw [parse?, toList_stamp, hs, hn]
  apply (Decode.bind_of_eq_some (yearPart_yearText h.year _) _).trans
  apply (Decode.bind_of_eq_some (separator_cons (by decide) _) _).trans
  apply (Decode.bind_of_eq_some (component_zeroPadded ⟨hdate.1.1.1, hdate.1.1.2⟩ (by omega) _)
    _).trans
  apply (Decode.bind_of_eq_some (separator_cons (by decide) _) _).trans
  apply (Decode.bind_of_eq_some (component_zeroPadded ⟨hdate.1.2, by omega⟩ (by omega) _) _).trans
  apply (if_pos rfl).trans
  apply (Decode.bind_of_eq_some rfl _).trans
  apply (Decode.bind_of_eq_some (component_zeroPadded ⟨Nat.zero_le _, by omega⟩ (by omega) _)
    _).trans
  apply (Decode.bind_of_eq_some (separator_cons (by decide) _) _).trans
  apply (Decode.bind_of_eq_some (component_zeroPadded ⟨Nat.zero_le _, by omega⟩ (by omega) _)
    _).trans
  apply (Decode.bind_of_eq_some (separator_cons (by decide) _) _).trans
  apply (Decode.bind_of_eq_some (component_zeroPadded ⟨Nat.zero_le _, hnano.1⟩ (by omega) _)
    _).trans
  apply (Decode.bind_of_eq_some (fractionPart_fractionText hnano.2.1 _) _).trans
  apply (Decode.bind_of_eq_some hzone _).trans
  simp only [hnano.2.2, minusMinutes_zero h.hour h.minute]
  exact if_pos (by simp [h.date, h.year, skipBlank])

/-! ### Instants that are read -/

theorem le_monthLength (year : Int) (month : Nat) :
  28 ≤ monthLength year month
  := by
  rw [monthLength]
  split
  · split <;> decide
  · split <;> decide

namespace Day

theorem isValid_iff {d : Day} :
  d.isValid = true
    ↔ (1 ≤ d.month ∧ d.month ≤ 12) ∧ 1 ≤ d.day ∧ d.day ≤ monthLength d.year d.month
  := by
  simp only [isValid, Bool.and_eq_true, decide_eq_true_eq, and_assoc]

theorem isValid_next {d : Day} (h : d.isValid = true) :
  d.next.isValid = true
  := by
  obtain ⟨⟨hleast, hmost⟩, hday, hlast⟩ := isValid_iff.mp h
  rw [next]
  split
  · exact isValid_iff.mpr ⟨⟨hleast, hmost⟩, by simp only; omega⟩
  · split
    · have hlength := le_monthLength d.year (d.month + 1)
      exact isValid_iff.mpr ⟨by simp only; omega, Nat.le_refl 1, by simp only; omega⟩
    · rfl

theorem isValid_previous {d : Day} (h : d.isValid = true) :
  d.previous.isValid = true
  := by
  obtain ⟨⟨hleast, hmost⟩, hday, hlast⟩ := isValid_iff.mp h
  rw [previous]
  split
  · exact isValid_iff.mpr ⟨⟨hleast, hmost⟩, by simp only; omega⟩
  · split
    · exact isValid_iff.mpr ⟨by simp only; omega,
        Nat.le_trans (by decide) (le_monthLength _ _), Nat.le_refl _⟩
    · rfl

end Day

theorem le_of_component {least most n : Nat} {cs rest : List Char}
    (h : component least most cs = some (n, rest)) :
  least ≤ n ∧ n ≤ most
  := by
  simp only [component, Option.bind_eq_bind, Option.bind_eq_some_iff] at h
  obtain ⟨⟨k, rest'⟩, -, h⟩ := h
  simp only at h
  split at h
  · next hk =>
    simp only [Option.some.injEq, Prod.mk.injEq] at h
    rwa [← h.1]
  · simp at h

theorem lt_of_fractionPart {nano : Nat} {cs rest : List Char}
    (h : fractionPart cs = some (nano, rest)) :
  nano < nanosPerSecond
  := by
  unfold fractionPart at h
  split at h
  · next more =>
    simp only at h
    split at h
    · simp at h
    · simp only [Option.some.injEq, Prod.mk.injEq] at h
      rw [← h.1]
      generalize hds : (more.take 9).takeWhile Decimal.isDigit = ds
      have hdigits : ∀ c ∈ ds, Decimal.isDigit c = true := by
        intro c hc
        rw [← hds] at hc
        exact List.mem_takeWhile_imp hc
      have hlength : ds.length ≤ 9 := by
        rw [← hds]
        exact Nat.le_trans (List.takeWhile_sublist _).length_le (List.length_take_le _ _)
      have hnanos : nanosPerSecond = 10 ^ ds.length * 10 ^ (9 - ds.length) := by
        rw [← Nat.pow_add, Nat.add_sub_cancel' hlength]
        rfl
      rw [hnanos]
      exact Nat.mul_lt_mul_of_pos_right (Decimal.valueOf_lt hdigits) (Nat.pow_pos (by decide))
  · simp only [Option.some.injEq, Prod.mk.injEq] at h
    rw [← h.1]
    decide

theorem lt_of_pair {tens n : Nat} {cs rest : List Char} (h : pair tens cs = some (n, rest)) :
  n < tens * 10 + 10
  := by
  unfold pair at h
  split at h
  · next a b more =>
    split at h
    · next hdigits =>
      simp only [Bool.and_eq_true, decide_eq_true_eq] at hdigits
      simp only [Option.some.injEq, Prod.mk.injEq] at h
      have hb := Decimal.digitValue_lt hdigits.1.2
      have hvalue : Decimal.valueOf 10 [a, b]
          = Decimal.digitValue a * 10 + Decimal.digitValue b := by
        simp [Decimal.valueOf]
      rw [← h.1, hvalue]
      omega
    · simp at h
  · simp at h

/-- An offset is less than a day. -/
theorem lt_of_offsetPart {ahead : Int} {cs rest : List Char}
    (h : offsetPart cs = some (ahead, rest)) :
  -1440 < ahead ∧ ahead < 1440
  := by
  have hoffset : ∀ (cs rest : List Char) (n : Int),
      ((pair 9 cs).bind fun p => (pair 5 (p.2.dropWhile fun c => c = ':' || Text.isBlank c)).bind
        fun q => if p.1 ≤ 23 then some (((p.1 * 60 + q.1 : Nat) : Int), q.2) else none)
          = some (n, rest)
        → 0 ≤ n ∧ n < 1440 := by
    intro cs rest n h
    obtain ⟨p, -, h⟩ := Option.bind_eq_some_iff.mp h
    obtain ⟨⟨minutes, more⟩, hminutes, h⟩ := Option.bind_eq_some_iff.mp h
    have hlt := lt_of_pair hminutes
    split at h
    · simp only [Option.some.injEq, Prod.mk.injEq] at h
      omega
    · simp at h
  unfold offsetPart at h
  simp only at h
  split at h
  · simp at h
  · next c rest' =>
    split at h
    · simp only [Option.some.injEq, Prod.mk.injEq] at h
      omega
    · split at h
      · have := hoffset _ _ _ h
        omega
      · split at h
        · obtain ⟨⟨n, more⟩, hn, h⟩ := Option.bind_eq_some_iff.mp h
          have := hoffset _ _ _ hn
          simp only [Option.some.injEq, Prod.mk.injEq] at h
          omega
        · split at h
          · split at h
            · simp only [Option.some.injEq, Prod.mk.injEq] at h
              omega
            · simp at h
          · simp at h

/-- Less than a day before or after an instant of the calendar is another one, if its year
is known. -/
theorem isValid_minusMinutes {t : Instant} (hdate : t.date.isValid = true) (hhour : t.hour < 24)
    (hminute : t.minute < 60) (hsecond : t.second < 60)
    (hnano : t.nano < nanosPerSecond ∨ t.second = 59 ∧ t.nano < 2 * nanosPerSecond) {ahead : Int}
    (hahead : -1440 < ahead ∧ ahead < 1440)
    (hyear : isKnownYear (t.minusMinutes ahead).date.year = true) :
  (t.minusMinutes ahead).IsValid
  := by
  have hday : (t.minusMinutes ahead).date.isValid = true := by
    simp only [Instant.minusMinutes]
    split
    · exact Day.isValid_previous hdate
    · split
      · exact Day.isValid_next hdate
      · exact hdate
  refine ⟨hday, hyear, ?_, ?_, hsecond, hnano⟩
  · simp only [Instant.minusMinutes]
    split
    · simp only
      omega
    · split
      · simp only
        omega
      · simp only
        omega
  · exact Nat.mod_lt _ (by decide)

/-- An instant that is read from a time stamp is one of the calendar. -/
theorem isValid_of_parse? {s : String} {t : Instant} (h : parse? s = some t) :
  t.IsValid
  := by
  rw [parse?] at h
  obtain ⟨⟨year, cs⟩, -, h⟩ := Option.bind_eq_some_iff.mp h
  obtain ⟨⟨_, cs⟩, -, h⟩ := Option.bind_eq_some_iff.mp h
  obtain ⟨⟨month, cs⟩, -, h⟩ := Option.bind_eq_some_iff.mp h
  obtain ⟨⟨_, cs⟩, -, h⟩ := Option.bind_eq_some_iff.mp h
  obtain ⟨⟨day, cs⟩, -, h⟩ := Option.bind_eq_some_iff.mp h
  -- between the day and the hour stands a letter or a blank
  rcases cs with - | ⟨c, cs⟩
  · simp at h
  simp only at h
  split at h
  swap
  · simp at h
  obtain ⟨cs, -, h⟩ := Option.bind_eq_some_iff.mp h
  obtain ⟨⟨hour, cs⟩, hhour, h⟩ := Option.bind_eq_some_iff.mp h
  obtain ⟨⟨_, cs⟩, -, h⟩ := Option.bind_eq_some_iff.mp h
  obtain ⟨⟨minute, cs⟩, hminute, h⟩ := Option.bind_eq_some_iff.mp h
  obtain ⟨⟨_, cs⟩, -, h⟩ := Option.bind_eq_some_iff.mp h
  obtain ⟨⟨second, cs⟩, hsecond, h⟩ := Option.bind_eq_some_iff.mp h
  obtain ⟨⟨nano, cs⟩, hnano, h⟩ := Option.bind_eq_some_iff.mp h
  obtain ⟨⟨ahead, cs⟩, hahead, h⟩ := Option.bind_eq_some_iff.mp h
  have hhours := (le_of_component hhour).2
  have hminutes := (le_of_component hminute).2
  have hseconds := (le_of_component hsecond).2
  have hnanos := lt_of_fractionPart hnano
  obtain ⟨hvalid, h⟩ := Option.ite_none_right_eq_some.mp h
  obtain rfl := Option.some.inj h
  simp only [Bool.and_eq_true] at hvalid
  obtain ⟨⟨hdate, hyear⟩, -⟩ := hvalid
  by_cases hleap : second = 60
  · rw [if_pos hleap] at hyear ⊢
    exact isValid_minusMinutes hdate (Nat.lt_succ_of_le hhours) (Nat.lt_succ_of_le hminutes)
      (show 59 < 60 by decide) (Or.inr ⟨rfl, by simp only; omega⟩) (lt_of_offsetPart hahead) hyear
  · rw [if_neg hleap] at hyear ⊢
    exact isValid_minusMinutes hdate (Nat.lt_succ_of_le hhours) (Nat.lt_succ_of_le hminutes)
      (by simp only; omega) (Or.inl hnanos) (lt_of_offsetPart hahead) hyear

end CorpusAudit.Time
