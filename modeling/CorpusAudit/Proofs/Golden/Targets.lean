import CorpusAudit.Golden.Target
import CorpusAudit.Proofs.Decimal.Digits
import CorpusAudit.Proofs.Storage.Trees
import CorpusAudit.Proofs.Text
import Mathlib

/-!
# The grammar of lists of targets

A list of targets is cut at its commas, and what stands between them is a code, or a code and
a quota with an equals sign between them; blanks may stand around each of them, and parts that
are blank altogether do not count (`Target.IsListed`).  Exactly the texts of this grammar are
read, and targets that are printed are read again (`Target.parseList_reads_listed`).
-/

namespace CorpusAudit

/-! ### Blanks -/

namespace Text

/-- A text with blanks before and after it. -/
def IsPadded (core s : List Char) : Prop :=
  ∃ before after, (∀ c ∈ before, isBlank c = true) ∧ (∀ c ∈ after, isBlank c = true)
    ∧ s = before ++ core ++ after

theorem isPadded_self (s : List Char) :
  IsPadded s s
  := ⟨[], [], by simp, by simp, by simp⟩

theorem IsPadded.trans {core s t : List Char} (h : IsPadded core s) (h' : IsPadded s t) :
  IsPadded core t
  := by
  obtain ⟨before, after, hbefore, hafter, rfl⟩ := h
  obtain ⟨before', after', hbefore', hafter', rfl⟩ := h'
  refine ⟨before' ++ before, after ++ after', ?_, ?_, by simp⟩
  · exact List.forall_mem_append.mpr ⟨hbefore', hbefore⟩
  · exact List.forall_mem_append.mpr ⟨hafter, hafter'⟩

/-- Around a text there are no further characters that are not blank. -/
theorem IsPadded.not_mem {core s : List Char} (h : IsPadded core s) {c : Char}
    (hc : isBlank c = false) (hcore : c ∉ core) :
  c ∉ s
  := by
  obtain ⟨before, after, hbefore, hafter, rfl⟩ := h
  intro hmem
  simp only [List.mem_append] at hmem
  rcases hmem with (hmem | hmem) | hmem
  · simp [hbefore c hmem] at hc
  · exact hcore hmem
  · simp [hafter c hmem] at hc

theorem trimChars_eq_rdropWhile (s : List Char) :
  trimChars s = (s.dropWhile isBlank).rdropWhile isBlank
  := rfl

theorem isPadded_trimChars (s : List Char) :
  IsPadded (trimChars s) s
  := by
  refine ⟨s.takeWhile isBlank, (s.dropWhile isBlank).rtakeWhile isBlank, ?_, ?_, ?_⟩
  · exact fun c => List.mem_takeWhile_imp
  · exact fun c => List.mem_rtakeWhile_imp
  · rw [trimChars_eq_rdropWhile, List.append_assoc, List.rdropWhile_append_rtakeWhile,
      List.takeWhile_append_dropWhile]

theorem trimChars_eq_nil_iff {s : List Char} :
  trimChars s = [] ↔ ∀ c ∈ s, isBlank c = true
  := by
  constructor
  · intro h
    obtain ⟨before, after, hbefore, hafter, hs⟩ := isPadded_trimChars s
    rw [h, List.append_nil] at hs
    rw [hs]
    exact List.forall_mem_append.mpr ⟨hbefore, hafter⟩
  · intro h
    rw [trimChars_eq_rdropWhile, List.dropWhile_eq_nil_iff.mpr h, List.rdropWhile_nil]

theorem dropWhile_append_cons {p : Char → Bool} {c : Char} (hc : p c = false)
    (left right : List Char) :
  (left ++ c :: right).dropWhile p = left.dropWhile p ++ c :: right
  := by
  rw [List.dropWhile_append]
  split
  · next h => rw [List.isEmpty_iff.mp h, List.dropWhile_cons_of_neg (by simp [hc]), List.nil_append]
  · rfl

theorem rdropWhile_append_cons {p : Char → Bool} {c : Char} (hc : p c = false)
    (left right : List Char) :
  (left ++ c :: right).rdropWhile p = left ++ c :: right.rdropWhile p
  := by
  have hreverse : (left ++ c :: right).reverse = right.reverse ++ c :: left.reverse := by simp
  rw [List.rdropWhile, hreverse, dropWhile_append_cons hc, List.rdropWhile]
  simp

/-- A character that is not blank keeps its place when the blanks at both ends are left out. -/
theorem trimChars_append_cons {c : Char} (hc : isBlank c = false) (left right : List Char) :
  trimChars (left ++ c :: right) = left.dropWhile isBlank ++ c :: right.rdropWhile isBlank
  := by
  rw [trimChars_eq_rdropWhile, dropWhile_append_cons hc, rdropWhile_append_cons hc]

/-- Blanks around a text do not matter to what is left when blanks are left out. -/
theorem IsPadded.trimChars_eq {core s : List Char} (h : IsPadded core s) :
  trimChars s = trimChars core
  := by
  obtain ⟨before, after, hbefore, hafter, rfl⟩ := h
  by_cases hcore : ∀ c ∈ core, isBlank c = true
  · rw [trimChars_eq_nil_iff.mpr hcore, trimChars_eq_nil_iff]
    exact List.forall_mem_append.mpr ⟨List.forall_mem_append.mpr ⟨hbefore, hcore⟩, hafter⟩
  · -- a character that is not blank splits the text into what is before and after it
    obtain ⟨c, hc, hblank⟩ : ∃ c ∈ core, isBlank c = false := by simpa using hcore
    obtain ⟨left, right, rfl⟩ := List.append_of_mem hc
    have hsplit : before ++ (left ++ c :: right) ++ after
        = (before ++ left) ++ c :: (right ++ after) := by simp
    rw [hsplit, trimChars_append_cons hblank, trimChars_append_cons hblank,
      List.dropWhile_append_of_pos hbefore]
    have hright : (right ++ after).rdropWhile isBlank = right.rdropWhile isBlank := by
      rw [List.rdropWhile, List.reverse_append, List.dropWhile_append_of_pos, List.rdropWhile]
      simpa using hafter
    rw [hright]

theorem trimChars_dropWhile (s : List Char) :
  trimChars (s.dropWhile isBlank) = trimChars s
  := by
  rw [trimChars_eq_rdropWhile, List.dropWhile_idempotent, trimChars_eq_rdropWhile]

theorem trimChars_rdropWhile (s : List Char) :
  trimChars (s.rdropWhile isBlank) = trimChars s
  := by
  have hpadded : IsPadded (s.rdropWhile isBlank) s :=
    ⟨[], s.rtakeWhile isBlank, by simp, fun c => List.mem_rtakeWhile_imp,
      by simp [List.rdropWhile_append_rtakeWhile]⟩
  exact hpadded.trimChars_eq.symm

theorem trimChars_of_not_blank {s : List Char} (h : ∀ c ∈ s, isBlank c = false) :
  trimChars s = s
  := by
  have hleft : s.dropWhile isBlank = s := by
    rw [List.dropWhile_eq_self_iff]
    intro hs
    simp [h]
  rw [trimChars_eq_rdropWhile, hleft, List.rdropWhile_eq_self_iff]
  intro hs
  simp [h _ (List.getLast_mem hs)]

end Text

open Text (IsPadded isBlank trimChars)

/-! ### Codes and quotas -/

/-- The letter `E` and four digits. -/
def IsCode (cs : List Char) : Prop :=
  ∃ ds, cs = 'E' :: ds ∧ ds.length = 4 ∧ ∀ d ∈ ds, Decimal.isDigit d = true

theorem isErrorCode_iff {cs : List Char} :
  isErrorCode cs = true ↔ IsCode cs
  := by
  rw [isErrorCode.eq_def, IsCode]
  split
  · simp
  · next hne =>
    simp only [Bool.false_eq_true, false_iff, not_exists, not_and]
    intro ds hds
    exact absurd hds (hne ds)

/-- It comes to the same to ask for five bytes in all, since a digit takes one byte and a
character that takes more is no digit. -/
theorem isCode_iff_length_encode {s : String} :
  IsCode s.toList ↔ (Text.encode s).length = 5
    ∧ ∃ ds, s.toList = 'E' :: ds ∧ ∀ d ∈ ds, Decimal.isDigit d = true
  := by
  have hone {d : Char} (hd : Decimal.isDigit d = true) : (String.utf8EncodeChar d).length = 1 := by
    have hsmall : d.val.toNat ≤ 127 := (Decimal.toNat_of_isDigit hd).2.trans (by decide)
    rw [String.utf8EncodeChar, if_pos hsmall, List.length_singleton]
  have hlength {ds : List Char} (hs : s.toList = 'E' :: ds)
      (hdigits : ∀ d ∈ ds, Decimal.isDigit d = true) :
      (Text.encode s).length = ds.length + 1 := by
    have hletter : (String.utf8EncodeChar 'E').length = 1 := by decide
    rw [Text.encode_eq_flatMap, hs, List.flatMap_cons, List.length_append, List.length_flatMap,
      List.map_congr_left fun d hd => hone (hdigits d hd), hletter]
    simp [Nat.add_comm]
  constructor
  · rintro ⟨ds, hs, hfour, hdigits⟩
    exact ⟨by rw [hlength hs hdigits, hfour], ds, hs, hdigits⟩
  · rintro ⟨hfive, ds, hs, hdigits⟩
    rw [hlength hs hdigits] at hfive
    exact ⟨ds, hs, Nat.succ.inj hfive, hdigits⟩

/-- A number below `2 ^ 64` in digits, perhaps with a plus sign. -/
def IsQuota (cs : List Char) (n : Nat) : Prop :=
  ∃ ds, (cs = ds ∨ cs = '+' :: ds) ∧ Decimal.IsDigits ds ∧ n = Decimal.valueOf 10 ds ∧ n < 2 ^ 64

theorem natural?_eq_some_iff {ds : List Char} {n : Nat} :
  Decimal.natural? ds = some n ↔ Decimal.IsDigits ds ∧ n = Decimal.valueOf 10 ds
  := by
  have hrefused : (ds.isEmpty || !ds.all Decimal.isDigit) = true ↔ ¬ Decimal.IsDigits ds := by
    rw [Decimal.IsDigits, ← List.all_eq_true, not_and_or, not_not, Bool.or_eq_true,
      List.isEmpty_iff, Bool.not_eq_true', Bool.not_eq_true]
  rw [Decimal.natural?]
  split
  · next h => simp [hrefused.mp h]
  · next h =>
    have hdigits : Decimal.IsDigits ds := not_not.mp (mt hrefused.mpr h)
    rw [Option.some.injEq, and_iff_right hdigits, eq_comm]

theorem count?_eq_some_iff {cs : List Char} {n : Nat} :
  Decimal.count? cs = some n ↔ IsQuota cs n
  := by
  have hsize : UInt64.size = 2 ^ 64 := rfl
  rw [Decimal.count?, Option.filter_eq_some_iff, natural?_eq_some_iff, decide_eq_true_eq, hsize,
    IsQuota]
  constructor
  · rintro ⟨⟨hdigits, hn⟩, hbound⟩
    refine ⟨Decimal.dropPlus cs, ?_, hdigits, hn, hbound⟩
    rw [Decimal.dropPlus.eq_def]
    split
    · exact Or.inr rfl
    · exact Or.inl rfl
  · rintro ⟨ds, hcs, hdigits, hn, hbound⟩
    have hplus : Decimal.dropPlus cs = ds := by
      rcases hcs with rfl | rfl
      · rw [Decimal.dropPlus.eq_def]
        split
        · next ds => exact absurd (hdigits.2 '+' List.mem_cons_self) (by decide)
        · rfl
      · rfl
    rw [hplus]
    exact ⟨⟨hdigits, hn⟩, hbound⟩

/-- A digit is not blank. -/
theorem isBlank_of_isDigit {c : Char} (h : Decimal.isDigit c = true) :
  isBlank c = false
  := by
  have hrange := Decimal.toNat_of_isDigit h
  simp only [isBlank, Text.blankRanges, List.any_cons, List.any_nil, Bool.or_false,
    Bool.or_eq_false_iff, Bool.and_eq_false_iff, decide_eq_false_iff_not]
  omega

theorem isBlank_of_isCode {cs : List Char} (h : IsCode cs) :
  ∀ c ∈ cs, isBlank c = false
  := by
  obtain ⟨ds, rfl, -, hdigits⟩ := h
  exact List.forall_mem_cons.mpr ⟨rfl, fun d hd => isBlank_of_isDigit (hdigits d hd)⟩

theorem isBlank_of_isQuota {cs : List Char} {n : Nat} (h : IsQuota cs n) :
  ∀ c ∈ cs, isBlank c = false
  := by
  obtain ⟨ds, hcs, hdigits, -⟩ := h
  have hds : ∀ d ∈ ds, isBlank d = false := fun d hd => isBlank_of_isDigit (hdigits.2 d hd)
  rcases hcs with rfl | rfl
  · exact hds
  · exact List.forall_mem_cons.mpr ⟨rfl, hds⟩

theorem not_mem_of_isCode {cs : List Char} (h : IsCode cs) {c : Char}
    (hc : Decimal.isDigit c = false) (hE : c ≠ 'E') :
  c ∉ cs
  := by
  obtain ⟨ds, rfl, -, hdigits⟩ := h
  intro hmem
  rcases List.mem_cons.mp hmem with rfl | hmem
  · exact hE rfl
  · simp [hdigits c hmem] at hc

namespace Target

/-! ### Parts of a list -/

/-- A part of a list names a target: by its code, where the quota is that of codes without
one, or by its code and its quota. -/
inductive IsWritten (quota : Nat) : List Char → Target → Prop where
  | code {s code : List Char} : IsPadded code s → IsCode code →
    IsWritten quota s ⟨String.ofList code, quota⟩
  | codeQuota {left right code number : List Char} {n : Nat} : IsPadded code left →
    IsCode code → IsPadded number right → IsQuota number n →
    IsWritten quota (left ++ '=' :: right) ⟨String.ofList code, n⟩

variable {quota : Nat} {t : Target}

theorem parsePart_of_not_mem {part : List Char} (h : '=' ∉ part) :
  parsePart quota part
    = if isErrorCode part then .ok ⟨String.ofList part, quota⟩
      else .error (.errorCode (String.ofList part))
  := by
  have htake : part.takeWhile (· ≠ '=') = part := by
    rw [List.takeWhile_eq_self_iff]
    intro c hc
    simpa using fun heq : c = '=' => h (heq ▸ hc)
  have hdrop : part.dropWhile (· ≠ '=') = [] := by
    rw [List.dropWhile_eq_nil_iff]
    intro c hc
    simpa using fun heq : c = '=' => h (heq ▸ hc)
  rw [parsePart, htake, hdrop]
  rfl

theorem parsePart_append {left : List Char} (h : '=' ∉ left) (right : List Char) :
  parsePart quota (left ++ '=' :: right)
    = match Decimal.count? (trimChars right) with
      | none => .error (.quota (String.ofList (left ++ '=' :: right)))
      | some n =>
        if isErrorCode (trimChars left) then .ok ⟨String.ofList (trimChars left), n⟩
        else .error (.errorCode (String.ofList (trimChars left)))
  := by
  have hleft : ∀ c ∈ left, decide (c ≠ '=') = true := by
    intro c hc
    simpa using fun heq : c = '=' => h (heq ▸ hc)
  have htake : (left ++ '=' :: right).takeWhile (· ≠ '=') = left := by
    rw [List.takeWhile_append_of_pos hleft]
    simp
  have hdrop : (left ++ '=' :: right).dropWhile (· ≠ '=') = '=' :: right := by
    rw [List.dropWhile_append_of_pos hleft]
    simp
  rw [parsePart, htake, hdrop]
  dsimp only
  cases Decimal.count? (trimChars right) <;> rfl

/-- What is read from a part, the blanks at its ends being left out, is what it names. -/
theorem parsePart_eq_ok_iff {s : List Char} :
  parsePart quota (trimChars s) = .ok t ↔ IsWritten quota s t
  := by
  constructor
  · intro h
    obtain ⟨before, after, hbefore, hafter, hs⟩ := Text.isPadded_trimChars s
    by_cases hequals : '=' ∈ trimChars s
    · obtain ⟨left, right, hsplit, hleft⟩ := List.eq_append_cons_of_mem hequals
      rw [hsplit, parsePart_append hleft] at h
      split at h
      · simp at h
      · next n hn =>
        split at h
        · next hcode =>
          obtain rfl := Except.ok.inj h
          rw [hsplit] at hs
          have hs' : s = (before ++ left) ++ '=' :: (right ++ after) := by rw [hs]; simp
          rw [hs']
          apply IsWritten.codeQuota
          · exact (Text.isPadded_trimChars left).trans ⟨before, [], hbefore, by simp, by simp⟩
          · exact isErrorCode_iff.mp hcode
          · exact (Text.isPadded_trimChars right).trans ⟨[], after, by simp, hafter, by simp⟩
          · exact count?_eq_some_iff.mp hn
        · simp at h
    · rw [parsePart_of_not_mem hequals] at h
      split at h
      · next hcode =>
        obtain rfl := Except.ok.inj h
        exact IsWritten.code (Text.isPadded_trimChars s) (isErrorCode_iff.mp hcode)
      · simp at h
  · rintro (⟨hpadded, hcode⟩ | @⟨left, right, code, number, n, hleft, hcode, hright, hnumber⟩)
    · rw [hpadded.trimChars_eq, Text.trimChars_of_not_blank (isBlank_of_isCode hcode),
        parsePart_of_not_mem (not_mem_of_isCode hcode rfl (by decide)),
        if_pos (isErrorCode_iff.mpr hcode)]
    · have hequals : isBlank '=' = false := by decide
      have hbefore : '=' ∉ left.dropWhile isBlank :=
        fun hmem => hleft.not_mem hequals (not_mem_of_isCode hcode rfl (by decide))
          ((List.dropWhile_sublist isBlank).subset hmem)
      rw [Text.trimChars_append_cons hequals, parsePart_append hbefore, Text.trimChars_dropWhile,
        Text.trimChars_rdropWhile, hleft.trimChars_eq, hright.trimChars_eq,
        Text.trimChars_of_not_blank (isBlank_of_isCode hcode),
        Text.trimChars_of_not_blank (isBlank_of_isQuota hnumber),
        count?_eq_some_iff.mpr hnumber]
      exact if_pos (isErrorCode_iff.mpr hcode)

/-! ### Lists -/

theorem parts_eq (s : List Char) :
  parts s = ((s.splitOn ',').filter fun p => !p.all isBlank).map trimChars
  := by
  have hempty (p : List Char) : (trimChars p).isEmpty = p.all isBlank := by
    rw [Bool.eq_iff_iff, List.isEmpty_iff, Text.trimChars_eq_nil_iff, List.all_eq_true]
  rw [parts, List.filter_map]
  simp only [Function.comp_def, hempty]

theorem mapM_eq_ok_iff {α β ε : Type} {f : α → Except ε β} {as : List α} {bs : List β} :
  as.mapM f = .ok bs ↔ List.Forall₂ (fun a b => f a = .ok b) as bs
  := by
  induction as generalizing bs with
  | nil => cases bs <;> simp [pure, Except.pure]
  | cons a as ih =>
    rw [List.mapM_cons, bind_eq_ok_iff, List.forall₂_cons_left_iff]
    simp only [bind_eq_ok_iff, ih, pure, Except.pure, Except.ok.injEq]
    grind

theorem repeated?_eq_none_iff {seen : List String} {ts : List Target} :
  repeated? seen ts = none ↔ (∀ t ∈ ts, t.code ∉ seen) ∧ (ts.map Target.code).Nodup
  := by
  induction ts generalizing seen with
  | nil => simp [repeated?]
  | cons t ts ih =>
    rw [repeated?]
    split
    · next h => simp [List.contains_iff_mem.mp h]
    · next h =>
      rw [List.contains_iff_mem] at h
      rw [ih]
      simp only [List.mem_cons, not_or, List.map_cons, List.nodup_cons, List.mem_map]
      grind

/-- A list of targets is accepted if there are some and their codes differ. -/
theorem faultOf?_eq_none_iff {ts : List Target} :
  faultOf? ts = none ↔ ts ≠ [] ∧ (ts.map Target.code).Nodup
  := by
  rw [faultOf?]
  cases ts with
  | nil => simp
  | cons t ts => simp [repeated?_eq_none_iff]

/-- A text lists targets with different codes, one for every part between commas that is not
blank. -/
structure IsListed (quota : Nat) (s : String) (ts : List Target) : Prop where
  nonempty : ts ≠ []
  written : List.Forall₂ (IsWritten quota)
    ((s.toList.splitOn ',').filter fun p => !p.all isBlank) ts
  distinct : (ts.map Target.code).Nodup

theorem parseList_eq_ok_iff {s : String} {ts : List Target} :
  parseList s quota = .ok ts ↔ IsListed quota s ts
  := by
  have hparts (us : List Target) : (parts s.toList).mapM (parsePart quota) = .ok us
      ↔ List.Forall₂ (IsWritten quota)
        ((s.toList.splitOn ',').filter fun p => !p.all isBlank) us := by
    rw [mapM_eq_ok_iff, parts_eq, List.forall₂_map_left_iff]
    simp only [parsePart_eq_ok_iff]
  rw [parseList, bind_eq_ok_iff]
  simp only [hparts]
  constructor
  · rintro ⟨us, hwritten, h⟩
    split at h
    · simp at h
    · next hfault =>
      obtain rfl := Except.ok.inj h
      obtain ⟨hne, hdistinct⟩ := faultOf?_eq_none_iff.mp hfault
      exact ⟨hne, hwritten, hdistinct⟩
  · intro h
    refine ⟨ts, h.written, ?_⟩
    rw [faultOf?_eq_none_iff.mpr ⟨h.nonempty, h.distinct⟩]

/-! ### Printing -/

/-- Targets as they are written in a list, each with its quota. -/
def listText (ts : List Target) : String :=
  ",".intercalate (ts.map fun t => t.code ++ "=" ++ toString t.quota)

theorem isWritten_entry (quota : Nat) {t : Target} (hcode : IsCode t.code.toList)
    (hquota : t.quota < 2 ^ 64) :
  IsWritten quota (t.code.toList ++ '=' :: Nat.toDigits 10 t.quota) t
  := by
  have hnumber : IsQuota (Nat.toDigits 10 t.quota) t.quota :=
    ⟨_, Or.inl rfl, Decimal.isDigits_toDigits _, (Decimal.valueOf_toDigits _).symm, hquota⟩
  have h : IsWritten quota (t.code.toList ++ '=' :: Nat.toDigits 10 t.quota)
      ⟨String.ofList t.code.toList, t.quota⟩ :=
    .codeQuota (Text.isPadded_self _) hcode (Text.isPadded_self _) hnumber
  rwa [String.ofList_toList] at h

theorem comma_not_mem_entry {t : Target} (hcode : IsCode t.code.toList) :
  ',' ∉ t.code.toList ++ '=' :: Nat.toDigits 10 t.quota
  := by
  intro hmem
  rcases List.mem_append.mp hmem with hmem | hmem
  · exact not_mem_of_isCode hcode rfl (by decide) hmem
  · rcases List.mem_cons.mp hmem with heq | hmem
    · exact absurd heq (by decide)
    · exact absurd (Decimal.isDigit_of_mem_toDigits hmem) (by decide)

theorem isListed_listText (quota : Nat) {ts : List Target} (hne : ts ≠ [])
    (hts : ∀ t ∈ ts, IsCode t.code.toList ∧ t.quota < 2 ^ 64)
    (hdistinct : (ts.map Target.code).Nodup) :
  IsListed quota (listText ts) ts
  := by
  have htext : (listText ts).toList
      = [','].intercalate (ts.map fun t => t.code.toList ++ '=' :: Nat.toDigits 10 t.quota) := by
    rw [listText, String.toList_intercalate, List.map_map]
    congr 1
    apply List.map_congr_left
    intro t _
    have hdigits : (toString t.quota).toList = Nat.toDigits 10 t.quota := String.toList_ofList
    rw [Function.comp_apply, String.toList_append, String.toList_append, List.append_assoc,
      hdigits]
    rfl
  have hsplit : (listText ts).toList.splitOn ','
      = ts.map fun t => t.code.toList ++ '=' :: Nat.toDigits 10 t.quota := by
    rw [htext, List.splitOn_intercalate]
    · intro part hpart
      obtain ⟨t, ht, rfl⟩ := List.mem_map.mp hpart
      exact comma_not_mem_entry (hts t ht).1
    · simpa using hne
  refine ⟨hne, ?_, hdistinct⟩
  rw [hsplit, List.filter_eq_self.mpr, List.forall₂_map_left_iff, List.forall₂_same]
  · intro t ht
    exact isWritten_entry quota (hts t ht).1 (hts t ht).2
  · intro part hpart
    obtain ⟨t, -, rfl⟩ := List.mem_map.mp hpart
    simp [show isBlank '=' = false from rfl]

/-- A text is read as targets exactly if it lists them, and is refused otherwise; what is read
is fit for curation, and targets with different codes are read again where they are printed. -/
theorem parseList_reads_listed :
  (∀ quota s ts, parseList s quota = .ok ts ↔ IsListed quota s ts)
    ∧ (∀ quota s, (¬ ∃ ts, IsListed quota s ts) ↔ ∃ e, parseList s quota = .error e)
    ∧ (∀ quota s ts, parseList s quota = .ok ts → faultOf? ts = none)
    ∧ ∀ quota ts, ts ≠ [] → (∀ t ∈ ts, IsCode t.code.toList ∧ t.quota < 2 ^ 64) →
      (ts.map Target.code).Nodup → parseList (listText ts) quota = .ok ts
  := by
  refine ⟨fun _ _ _ => parseList_eq_ok_iff, ?refused, ?accepted, ?printed⟩
  case refused =>
    intro quota s
    simp only [← parseList_eq_ok_iff]
    cases parseList s quota <;> simp
  case accepted =>
    intro quota s ts h
    have hlisted := parseList_eq_ok_iff.mp h
    exact faultOf?_eq_none_iff.mpr ⟨hlisted.nonempty, hlisted.distinct⟩
  case printed =>
    intro quota ts hne hts hdistinct
    exact parseList_eq_ok_iff.mpr (isListed_listText quota hne hts hdistinct)

/-- Two targets, of which the second has the greatest quota that there is. -/
def greatestQuota : List Target :=
  [⟨"E0433", 0⟩, ⟨"E0308", 2 ^ 64 - 1⟩]

theorem parseList_reads_listed_greatestQuota :
  parseList "E0433=0,E0308=18446744073709551615" 10 = .ok greatestQuota
    ∧ IsListed 0 " E0433,, E0308 =\t+18446744073709551615 ," greatestQuota
    ∧ (∃ e, parseList "E0433,E0308=18446744073709551616" 10 = .error e)
    ∧ faultOf? greatestQuota = none
  := by
  obtain ⟨hread, hrefused, haccepted, hprinted⟩ := parseList_reads_listed
  have hts : ∀ t ∈ greatestQuota, IsCode t.code.toList ∧ t.quota < 2 ^ 64 := by
    intro t ht
    simp only [greatestQuota, List.mem_cons, List.not_mem_nil, or_false] at ht
    rcases ht with rfl | rfl
    · exact ⟨isErrorCode_iff.mp (by decide), by decide⟩
    · exact ⟨isErrorCode_iff.mp (by decide), by decide⟩
  have hprint := hprinted 10 greatestQuota (by decide) hts (by decide)
  refine ⟨hprint, (hread _ _ _).mp ?_, ⟨.quota "E0308=18446744073709551616", ?_⟩,
    haccepted 10 _ _ hprint⟩
  · decide +kernel
  · decide +kernel

end Target

end CorpusAudit
