import CorpusAudit.Decimal.Reading
import CorpusAudit.Text.Blank
import CorpusAudit.Text.Layout
import CorpusAudit.Text.Reader

/-!
# Instants

An `Instant` is a moment in universal time, given by its calendar day, its time of day
and the fraction of its second.  `parse?` reads a time stamp with an offset from
universal time and `stamp` writes it back with as few fraction digits as the fraction
needs, in groups of three.  `quarter` names the quarter of a year, by which samples are
filed.
-/

namespace CorpusAudit.Time

open Text (Reader)

/-- A day of the calendar. -/
structure Day where
  year : Int
  month : Nat
  day : Nat
deriving DecidableEq, Repr

/-- The number of nanoseconds of a second. -/
def nanosPerSecond : Nat := 1000000000

/-- A moment in universal time.  The nanoseconds of a leap second go on from those of
the second before. -/
structure Instant where
  date : Day
  hour : Nat
  minute : Nat
  second : Nat
  nano : Nat
deriving DecidableEq, Repr

/-! ### The calendar -/

/-- Leap years are the multiples of four, of whole centuries those of four hundred. -/
def isLeap (year : Int) : Bool :=
  year % 4 = 0 && (year % 100 ≠ 0 || year % 400 = 0)

/-- The number of days of a month. -/
def monthLength (year : Int) (month : Nat) : Nat :=
  if month = 2 then (if isLeap year then 29 else 28)
  else if month = 4 ∨ month = 6 ∨ month = 9 ∨ month = 11 then 30
  else 31

/-- A day that is in the calendar. -/
def Day.isValid (d : Day) : Bool :=
  1 ≤ d.month && d.month ≤ 12 && 1 ≤ d.day && d.day ≤ monthLength d.year d.month

/-- The day after. -/
def Day.next (d : Day) : Day :=
  if d.day < monthLength d.year d.month then { d with day := d.day + 1 }
  else if d.month < 12 then { d with month := d.month + 1, day := 1 }
  else ⟨d.year + 1, 1, 1⟩

/-- The day before. -/
def Day.previous (d : Day) : Day :=
  if 1 < d.day then { d with day := d.day - 1 }
  else if 1 < d.month then ⟨d.year, d.month - 1, monthLength d.year (d.month - 1)⟩
  else ⟨d.year - 1, 12, 31⟩

/-- The day before the next day of a calendar day is the day itself. -/
theorem Day.previous_next {d : Day} (h : d.isValid = true) :
  d.next.previous = d
  := by
  obtain ⟨y, m, k⟩ := d
  simp only [isValid, Bool.and_eq_true, decide_eq_true_eq] at h
  simp only [next]
  split
  · simp only [previous]
    grind
  · have hk : k = monthLength y m := by grind
    split
    · simp only [previous]
      grind
    · have hm : m = 12 := by grind
      subst hm
      have h31 : monthLength y 12 = 31 := rfl
      simp only [previous]
      grind

/-- The instant `minutes` before, for less than a day. -/
def Instant.minusMinutes (t : Instant) (minutes : Int) : Instant :=
  let total : Int := t.hour * 60 + t.minute - minutes
  let (date, total) :=
    if total < 0 then (t.date.previous, total + 1440)
    else if 1440 ≤ total then (t.date.next, total - 1440)
    else (t.date, total)
  { t with date, hour := total.toNat / 60, minute := total.toNat % 60 }

/-- The moment a number of seconds and nanoseconds after the start of the year 1970. -/
def Instant.ofUnix (seconds nano : Nat) : Instant where
  date := Nat.repeat Day.next (seconds / 86400) ⟨1970, 1, 1⟩
  hour := seconds / 3600 % 24
  minute := seconds / 60 % 60
  second := seconds % 60
  nano := nano

/-! ### Reading -/

/-- One digit or more, at most `width`. -/
def digits (width : Nat) : Reader Nat := fun cs =>
  let ds := (cs.take width).takeWhile Decimal.isDigit
  if ds.isEmpty then none else some (Decimal.valueOf 10 ds, cs.drop ds.length)

/-- The characters from the first that is not blank. -/
def skipBlank (cs : List Char) : List Char :=
  cs.dropWhile Text.isBlank

/-- One of the numbers of a date or time, after any blanks. -/
def component (least most : Nat) : Reader Nat := fun cs => do
  let (n, rest) ← digits 2 (skipBlank cs)
  if least ≤ n ∧ n ≤ most then some (n, rest) else none

/-- The years of which there are instants. -/
def isKnownYear (year : Int) : Bool :=
  -262143 ≤ year && year ≤ 262142

/-- A year: four digits at most, or a sign and any number of digits. -/
def yearPart : Reader Int := fun cs => do
  let bounded (y : Int) (rest : List Char) : Option (Int × List Char) :=
    if isKnownYear y then some (y, rest) else none
  match skipBlank cs with
  | '-' :: rest => do
    let (y, rest) ← digits rest.length rest
    bounded (-y) rest
  | '+' :: rest => do
    let (y, rest) ← digits rest.length rest
    bounded y rest
  | cs => do
    let (y, rest) ← digits 4 cs
    bounded y rest

/-- A separator, after any blanks. -/
def separator (c : Char) : Reader Unit := fun cs =>
  match skipBlank cs with
  | [] => none
  | d :: rest => if d = c then some ((), rest) else none

/-- The fraction of a second in nanoseconds, if there is one; digits after the ninth
are dropped. -/
def fractionPart : Reader Nat
  | '.' :: rest =>
    let ds := (rest.take 9).takeWhile Decimal.isDigit
    if ds.isEmpty then none
    else some (Decimal.valueOf 10 ds * Nat.pow 10 (9 - ds.length), rest.dropWhile Decimal.isDigit)
  | cs => some (0, cs)

/-- Two digits, not more. -/
def pair (tens : Nat) : Reader Nat
  | a :: b :: rest =>
    if Decimal.isDigit a && Decimal.isDigit b && Decimal.digitValue a ≤ tens then
      some (Decimal.valueOf 10 [a, b], rest)
    else none
  | _ => none

/-- The minutes by which local time is ahead of universal time. -/
def offsetPart : Reader Int := fun cs => do
  let hoursAndMinutes : Reader Int := fun cs => do
    let (h, rest) ← pair 9 cs
    let (m, rest) ← pair 5 (rest.dropWhile fun c => c = ':' || Text.isBlank c)
    if h ≤ 23 then some (((h * 60 + m : Nat) : Int), rest) else none
  match cs with
  | [] => none
  | c :: rest =>
    if c = 'Z' || c = 'z' then some (0, rest)
    else if c = '+' then hoursAndMinutes rest
    else if c = '-' || c = '−' then do
      let (m, rest) ← hoursAndMinutes rest
      some (-m, rest)
    else match cs with
      | u :: t :: c :: rest =>
        if (u = 'U' || u = 'u') && (t = 'T' || t = 't') && (c = 'C' || c = 'c') then some (0, rest)
        else none
      | _ => none

/-- A date, a separator, a time of day and an offset. -/
def parse? (s : String) : Option Instant := do
  let (year, cs) ← yearPart s.toList
  let (_, cs) ← separator '-' cs
  let (month, cs) ← component 1 12 cs
  let (_, cs) ← separator '-' cs
  let (day, cs) ← component 1 31 cs
  let cs ← match cs with
    | c :: cs => if c = 'T' || c = 't' || c = ' ' then some cs else none
    | [] => none
  let (hour, cs) ← component 0 23 cs
  let (_, cs) ← separator ':' cs
  let (minute, cs) ← component 0 59 cs
  let (_, cs) ← separator ':' cs
  let (second, cs) ← component 0 60 cs
  let (nano, cs) ← fractionPart cs
  let (ahead, cs) ← offsetPart (skipBlank cs)
  let date : Day := ⟨year, month, day⟩
  let written : Instant :=
    if second = 60 then ⟨date, hour, minute, 59, nano + nanosPerSecond⟩
    else ⟨date, hour, minute, second, nano⟩
  let t := written.minusMinutes ahead
  if date.isValid && isKnownYear t.date.year && (skipBlank cs).isEmpty then some t else none

/-! ### Writing -/

/-- A year with four digits, and with its sign outside of the four-digit years. -/
def yearText (year : Int) : String :=
  if 0 ≤ year ∧ year ≤ 9999 then Text.padZeros 4 year.toNat
  else (if year < 0 then "-" else "+") ++ Text.padZeros 4 year.natAbs

/-- The fraction of a second, with none, three, six or nine digits. -/
def fractionText (nano : Nat) : String :=
  if nano = 0 then ""
  else if nano % 1000000 = 0 then "." ++ Text.padZeros 3 (nano / 1000000)
  else if nano % 1000 = 0 then "." ++ Text.padZeros 6 (nano / 1000)
  else "." ++ Text.padZeros 9 nano

/-- A time stamp without its offset. -/
def Instant.localText (t : Instant) : String :=
  let leap := nanosPerSecond ≤ t.nano
  yearText t.date.year ++ "-" ++ Text.padZeros 2 t.date.month ++ "-" ++ Text.padZeros 2 t.date.day
    ++ "T" ++ Text.padZeros 2 t.hour ++ ":" ++ Text.padZeros 2 t.minute ++ ":"
    ++ Text.padZeros 2 (if leap then t.second + 1 else t.second)
    ++ fractionText (if leap then t.nano - nanosPerSecond else t.nano)

/-- The time stamp of documents, with the letter for universal time. -/
def Instant.stamp (t : Instant) : String :=
  t.localText ++ "Z"

/-- The time stamp of printed reports, with the offset of universal time. -/
def Instant.stampWithOffset (t : Instant) : String :=
  t.localText ++ "+00:00"

/-- The name of the quarter, such as `2024-Q1`. -/
def Instant.quarter (t : Instant) : String :=
  toString t.date.year ++ "-Q" ++ toString ((t.date.month - 1) / 3 + 1)

end CorpusAudit.Time
