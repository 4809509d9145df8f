import CorpusAudit.Json.Reader
import Mathlib.Data.List.DropRight

/-!
# Reading inside a longer text

A reader that has come to the end of what it reads does not look further, except that a
number goes on as long as there are digits.  So a document is read the same way when it
stands inside a longer text, provided that what follows does not go on with a number
(`Stops`), and whatever fuel is left over (`value_extends`).
-/

namespace CorpusAudit.Json

open Text (Symbol)

variable {α : Type}

/-- Symbols that do not go on with a number. -/
def Stops (cs : List Symbol) : Prop :=
  ∀ c ∈ cs.head?, isDigit c = false ∧ c ≠ some '.' ∧ c ≠ some 'e' ∧ c ≠ some 'E'

theorem stops_nil :
  Stops []
  := by
  simp [Stops]

/-- What `r` reads is read by `r'` when more symbols follow. -/
def Extends (r r' : Reader α) : Prop :=
  ∀ {cs : List Symbol} {a : α} {rest : List Symbol}, r cs = some (a, rest) →
    ∀ more, Stops more → r' (cs ++ more) = some (a, rest ++ more)

/-! ### Blanks -/

theorem skipBlank_append {cs : List Symbol} (h : skipBlank cs ≠ []) (more : List Symbol) :
  skipBlank (cs ++ more) = skipBlank cs ++ more
  := by
  simp only [skipBlank] at h ⊢
  rw [List.dropWhile_append, if_neg]
  simpa using h

theorem skipBlank_append_of_eq {cs rest : List Symbol} {c : Symbol} (h : skipBlank cs = c :: rest)
    (more : List Symbol) :
  skipBlank (cs ++ more) = c :: (rest ++ more)
  := by
  rw [skipBlank_append (by simp [h]), h, List.cons_append]

theorem skipBlank_skipBlank (cs : List Symbol) :
  skipBlank (skipBlank cs) = skipBlank cs
  := List.dropWhile_idempotent isBlank cs

/-! ### Numbers -/

theorem dropWhile_isDigit_append (cs : List Symbol) {more : List Symbol} (h : Stops more) :
  (cs ++ more).takeWhile isDigit = cs.takeWhile isDigit
    ∧ (cs ++ more).dropWhile isDigit = cs.dropWhile isDigit ++ more
  := by
  induction cs with
  | nil =>
    cases more with
    | nil => exact ⟨rfl, rfl⟩
    | cons c more => simp [(h c rfl).1]
  | cons c cs ih =>
    simp only [List.cons_append, List.takeWhile_cons, List.dropWhile_cons, ih]
    split <;> simp

theorem digits_extends :
  Extends digits digits
  := by
  intro cs ds rest h more hmore
  obtain ⟨htake, hdrop⟩ := dropWhile_isDigit_append cs hmore
  simp only [digits] at h ⊢
  rw [htake, hdrop]
  split at h
  · simp at h
  · next hds =>
    simp only [Option.some.injEq, Prod.mk.injEq] at h
    obtain ⟨rfl, rfl⟩ := h
    rw [if_neg hds]

theorem wholePart_of_ne {cs : List Symbol} (h : cs.head? ≠ some (some '0')) :
  wholePart cs = digits cs
  := by
  unfold wholePart
  split
  · simp at h
  · rfl

theorem wholePart_extends :
  Extends wholePart wholePart
  := by
  intro cs ds rest h more hmore
  cases cs with
  | nil => simp [wholePart, digits] at h
  | cons c cs =>
    by_cases hc : c = some '0'
    · subst hc
      simp only [wholePart, Option.some.injEq, Prod.mk.injEq] at h
      obtain ⟨rfl, rfl⟩ := h
      rfl
    · rw [wholePart_of_ne (by simpa using hc)] at h
      rw [wholePart_of_ne (by simpa using hc)]
      exact digits_extends h more hmore

theorem fractionPart_of_ne {cs : List Symbol} (h : cs.head? ≠ some (some '.')) :
  fractionPart cs = some ((false, []), cs)
  := by
  unfold fractionPart
  split
  · simp at h
  · rfl

theorem fractionPart_extends :
  Extends fractionPart fractionPart
  := by
  intro cs a rest h more hmore
  by_cases hc : cs.head? = some (some '.')
  · obtain ⟨cs, rfl⟩ := List.head?_eq_some_iff.mp hc
    simp only [fractionPart, Option.bind_eq_bind, Option.bind_eq_some_iff, Option.some.injEq,
      Prod.mk.injEq] at h
    obtain ⟨⟨ds, rest'⟩, hds, rfl, rfl⟩ := h
    simp [fractionPart, digits_extends hds more hmore]
  · rw [fractionPart_of_ne hc] at h
    simp only [Option.some.injEq, Prod.mk.injEq] at h
    obtain ⟨rfl, rfl⟩ := h
    apply fractionPart_of_ne
    cases cs with
    | nil =>
      intro heq
      exact (hmore _ heq).2.1 rfl
    | cons c cs => simpa using hc

theorem signPart_append {cs : List Symbol} (h : cs ≠ []) (more : List Symbol) :
  signPart (cs ++ more) = ((signPart cs).1, (signPart cs).2 ++ more)
  := by
  cases cs with
  | nil => simp at h
  | cons c cs =>
    by_cases hm : c = some '-'
    · simp [hm, signPart]
    · by_cases hp : c = some '+'
      · simp [hp, signPart]
      · have hs (cs : List Symbol) : signPart (c :: cs) = (false, c :: cs) := by
          unfold signPart
          split <;> simp_all
        simp [hs]

theorem exponentPart_of_ne {cs : List Symbol}
    (h : ∀ c ∈ cs.head?, c ≠ some 'e' ∧ c ≠ some 'E') :
  exponentPart cs = some (none, cs)
  := by
  cases cs with
  | nil => rfl
  | cons c cs =>
    have hc := h c rfl
    simp [exponentPart, hc.1, hc.2]

theorem exponentPart_extends :
  Extends exponentPart exponentPart
  := by
  intro cs a rest h more hmore
  cases cs with
  | nil =>
    simp only [exponentPart, Option.some.injEq, Prod.mk.injEq] at h
    obtain ⟨rfl, rfl⟩ := h
    apply exponentPart_of_ne
    intro c hc
    exact (hmore c hc).2.2
  | cons c cs =>
    simp only [List.cons_append, exponentPart] at h ⊢
    split at h
    · next hc =>
      simp only [Option.bind_eq_bind, Option.bind_eq_some_iff, Option.some.injEq,
        Prod.mk.injEq] at h
      obtain ⟨⟨ds, rest'⟩, hds, rfl, rfl⟩ := h
      have hcs : cs ≠ [] := by
        rintro rfl
        simp [signPart, digits] at hds
      simp [hc, signPart_append hcs, digits_extends hds more hmore]
    · next hc =>
      simp only [Option.some.injEq, Prod.mk.injEq] at h
      obtain ⟨rfl, rfl⟩ := h
      simp [hc]

theorem numeral_extends (negative : Bool) :
  Extends (numeral negative) (numeral negative)
  := by
  intro cs a rest h more hmore
  simp only [numeral, Option.bind_eq_bind, Option.bind_eq_some_iff, Option.some.injEq,
    Prod.mk.injEq] at h
  obtain ⟨⟨whole, cs₁⟩, hwhole, ⟨⟨hasPoint, fraction⟩, cs₂⟩, hfraction, ⟨exponent, cs₃⟩,
    hexponent, rfl, rfl⟩ := h
  simp [numeral, wholePart_extends hwhole more hmore, fractionPart_extends hfraction more hmore,
    exponentPart_extends hexponent more hmore]

theorem number_extends (negative : Bool) :
  Extends (number negative) (number negative)
  := by
  intro cs v rest h more hmore
  simp only [number, Option.bind_eq_bind, Option.bind_eq_some_iff, Option.some.injEq,
    Prod.mk.injEq] at h
  obtain ⟨⟨n, cs₁⟩, hn, rfl, rfl⟩ := h
  simp [number, numeral_extends negative hn more hmore]

/-! ### Texts -/

theorem untilQuote_quote (cs : List Symbol) :
  untilQuote (some '"' :: cs) = some ([], cs)
  := by
  rw [untilQuote.eq_def]
  rfl

theorem untilQuote_escape (d : Symbol) (cs : List Symbol) :
  untilQuote (some '\\' :: d :: cs)
    = (untilQuote cs).map fun p => (some '\\' :: d :: p.1, p.2)
  := by
  rw [untilQuote.eq_def]
  cases h : untilQuote cs <;> simp [h]

theorem untilQuote_of_ne {c : Symbol} (hq : c ≠ some '"') (hb : c ≠ some '\\')
    (cs : List Symbol) :
  untilQuote (c :: cs) = (untilQuote cs).map fun p => (c :: p.1, p.2)
  := by
  rw [untilQuote.eq_def]
  cases h : untilQuote cs <;> simp [hq, hb, h]

theorem untilQuote_append {cs ds rest : List Symbol} (h : untilQuote cs = some (ds, rest))
    (more : List Symbol) :
  untilQuote (cs ++ more) = some (ds, rest ++ more)
  := by
  fun_induction untilQuote cs generalizing ds rest with
  | case1 => simp at h
  | case2 cs =>
    simp only [Option.some.injEq, Prod.mk.injEq] at h
    obtain ⟨rfl, rfl⟩ := h
    exact untilQuote_quote _
  | case3 => simp at h
  | case4 d cs hq ih =>
    simp only [Option.bind_eq_bind, Option.bind_eq_some_iff, Option.some.injEq,
      Prod.mk.injEq] at h
    obtain ⟨⟨es, rest'⟩, hes, rfl, rfl⟩ := h
    simp [untilQuote_escape, ih hes]
  | case5 c cs hq hb ih =>
    simp only [Option.bind_eq_bind, Option.bind_eq_some_iff, Option.some.injEq,
      Prod.mk.injEq] at h
    obtain ⟨⟨es, rest'⟩, hes, rfl, rfl⟩ := h
    simp [untilQuote_of_ne hq hb, ih hes]

theorem text_append {cs ds rest : List Symbol} (h : text cs = some (ds, rest))
    (more : List Symbol) :
  text (cs ++ more) = some (ds, rest ++ more)
  := by
  simp only [text, Option.bind_eq_bind, Option.bind_eq_some_iff, Option.some.injEq,
    Prod.mk.injEq] at h
  obtain ⟨⟨es, rest'⟩, hes, ms, hms, rfl, rfl⟩ := h
  simp [text, untilQuote_append hes more, hms]

/-! ### Documents that are neither lists nor records -/

theorem exists_digit_of_number {negative : Bool} {cs rest : List Symbol} {v : Value}
    (h : number negative cs = some (v, rest)) :
  ∃ c cs', cs = c :: cs' ∧ isDigit c = true
  := by
  simp only [number, numeral, Option.bind_eq_bind, Option.bind_eq_some_iff] at h
  obtain ⟨_, ⟨⟨ds, cs₁⟩, hwhole, -⟩, -⟩ := h
  cases cs with
  | nil => simp [wholePart, digits] at hwhole
  | cons c cs =>
    refine ⟨c, cs, rfl, ?_⟩
    by_cases hc : c = some '0'
    · subst hc
      rfl
    · rw [wholePart_of_ne (by simpa using hc), digits, List.takeWhile_cons] at hwhole
      cases hd : isDigit c with
      | true => rfl
      | false => simp [hd] at hwhole

theorem scalar_of_isDigit {c : Symbol} (h : isDigit c = true) (cs : List Symbol) :
  scalar (c :: cs) = number false (c :: cs)
  := by
  unfold scalar
  split
  all_goals
    first
    | rfl
    | simp_all [isDigit, Decimal.isDigit]

/-- The words that stand for values. -/
def words : List (List Symbol × Value) :=
  [([some 'n', some 'u', some 'l', some 'l'], .null),
    ([some 't', some 'r', some 'u', some 'e'], .bool true),
    ([some 'f', some 'a', some 'l', some 's', some 'e'], .bool false)]

theorem scalar_word {w : List Symbol × Value} (hw : w ∈ words) (rest : List Symbol) :
  scalar (w.1 ++ rest) = some (w.2, rest)
  := by
  simp only [words, List.mem_cons, List.not_mem_nil, or_false] at hw
  rcases hw with rfl | rfl | rfl <;> rfl

/-- What stands where a document was read that is neither a list nor a record: a word, a text
after its opening quote, or a number, perhaps after a minus sign. -/
theorem scalar_inv {cs rest : List Symbol} {v : Value} (h : scalar cs = some (v, rest)) :
  (∃ w ∈ words, cs = w.1 ++ rest ∧ v = w.2)
    ∨ (∃ cs' s, cs = some '"' :: cs' ∧ text cs' = some (s, rest) ∧ v = textValue s)
    ∨ (∃ cs', cs = some '-' :: cs' ∧ number true cs' = some (v, rest))
    ∨ number false cs = some (v, rest)
  := by
  have hword {w : List Symbol × Value} (hw : w ∈ words) {rest' : List Symbol}
      (h : some (w.2, rest') = some (v, rest)) :
      ∃ u ∈ words, w.1 ++ rest' = u.1 ++ rest ∧ v = u.2 := by
    obtain ⟨rfl, rfl⟩ := Prod.mk.inj (Option.some.inj h)
    exact ⟨w, hw, rfl, rfl⟩
  unfold scalar at h
  split at h
  · exact Or.inl (hword (w := words[0]) (by simp [words]) h)
  · exact Or.inl (hword (w := words[1]) (by simp [words]) h)
  · exact Or.inl (hword (w := words[2]) (by simp [words]) h)
  · next cs' =>
    simp only [Option.bind_eq_bind, Option.bind_eq_some_iff, Option.some.injEq,
      Prod.mk.injEq] at h
    obtain ⟨⟨s, rest'⟩, hs, rfl, rfl⟩ := h
    exact Or.inr (Or.inl ⟨cs', s, rfl, hs, rfl⟩)
  · next cs' => exact Or.inr (Or.inr (Or.inl ⟨cs', rfl, h⟩))
  · exact Or.inr (Or.inr (Or.inr h))

theorem scalar_extends :
  Extends scalar scalar
  := by
  intro cs v rest h more hmore
  rcases scalar_inv h with ⟨w, hw, rfl, rfl⟩ | ⟨cs', s, rfl, hs, rfl⟩ | ⟨cs', rfl, hv⟩ | hv
  · rw [List.append_assoc]
    exact scalar_word hw (rest ++ more)
  · simp [scalar, text_append hs more]
  · exact number_extends true hv more hmore
  · obtain ⟨c, cs', rfl, hc⟩ := exists_digit_of_number hv
    rw [List.cons_append, scalar_of_isDigit hc, ← List.cons_append]
    exact number_extends false hv more hmore

/-! ### Lists and records -/

variable {item item' : Reader α}

/-- What stands where items were read: an item, and a comma before further items or else the
closing character. -/
theorem separated_inv {close : Char} {fuel : Nat} {cs rest : List Symbol} {as : List α}
    (h : separated item close (fuel + 1) cs = some (as, rest)) :
  ∃ a cs₁ c cs₂, item cs = some (a, cs₁) ∧ skipBlank cs₁ = c :: cs₂
    ∧ ((c = some ',' ∧ ∃ as', separated item close fuel cs₂ = some (as', rest) ∧ as = a :: as')
      ∨ (c ≠ some ',' ∧ c = some close ∧ as = [a] ∧ rest = cs₂))
  := by
  simp only [separated, Option.bind_eq_bind, Option.bind_eq_some_iff] at h
  obtain ⟨⟨a, cs₁⟩, ha, h⟩ := h
  simp only at h
  split at h
  · simp at h
  · next c cs₂ hblank =>
    refine ⟨a, cs₁, c, cs₂, ha, hblank, ?_⟩
    split at h
    · next hc =>
      simp only [Option.bind_eq_some_iff, Option.some.injEq, Prod.mk.injEq] at h
      obtain ⟨⟨as', cs₃⟩, has, rfl, rfl⟩ := h
      exact Or.inl ⟨hc, as', has, rfl⟩
    · next hc =>
      split at h
      · next hclose =>
        simp only [Option.some.injEq, Prod.mk.injEq] at h
        exact Or.inr ⟨hc, hclose, h.1.symm, h.2.symm⟩
      · simp at h

theorem separated_extends (hitem : Extends item item') (close : Char) {fuel fuel' : Nat}
    (hfuel : fuel ≤ fuel') :
  Extends (separated item close fuel) (separated item' close fuel')
  := by
  intro cs as rest h more hmore
  induction fuel generalizing fuel' cs as with
  | zero => simp [separated] at h
  | succ fuel ih =>
    obtain ⟨fuel', rfl⟩ : ∃ n, fuel' = n + 1 := ⟨fuel' - 1, by omega⟩
    obtain ⟨a, cs₁, c, cs₂, ha, hblank, hnext⟩ := separated_inv h
    have hfirst := hitem ha more hmore
    have hskip := skipBlank_append_of_eq hblank more
    rcases hnext with ⟨rfl, as', has, rfl⟩ | ⟨hcomma, rfl, rfl, rfl⟩
    · have hrest := ih (Nat.le_of_succ_le_succ hfuel) has
      simp [separated, hfirst, hskip, hrest]
    · simp [separated, hfirst, hskip, hcomma]

theorem enclosed_inv {close : Char} {fuel : Nat} {cs rest : List Symbol} {as : List α}
    (h : enclosed item close fuel cs = some (as, rest)) :
  ∃ c cs', skipBlank cs = c :: cs'
    ∧ ((c = some close ∧ as = [] ∧ rest = cs')
      ∨ (c ≠ some close ∧ separated item close fuel (c :: cs') = some (as, rest)))
  := by
  simp only [enclosed] at h
  split at h
  · simp at h
  · next c cs' hblank =>
    refine ⟨c, cs', hblank, ?_⟩
    split at h
    · next hc =>
      simp only [Option.some.injEq, Prod.mk.injEq] at h
      exact Or.inl ⟨hc, h.1.symm, h.2.symm⟩
    · next hc => exact Or.inr ⟨hc, h⟩

theorem enclosed_extends (hitem : Extends item item') (close : Char) {fuel fuel' : Nat}
    (hfuel : fuel ≤ fuel') :
  Extends (enclosed item close fuel) (enclosed item' close fuel')
  := by
  intro cs as rest h more hmore
  obtain ⟨c, cs', hblank, ⟨rfl, rfl, rfl⟩ | ⟨hc, has⟩⟩ := enclosed_inv h
  · simp [enclosed, skipBlank_append_of_eq hblank more]
  · have hitems := separated_extends hitem close hfuel has more hmore
    rw [List.cons_append] at hitems
    simp [enclosed, skipBlank_append_of_eq hblank more, hc, hitems]

theorem field_inv {r : Reader Value} {cs rest : List Symbol} {f : List Symbol × Value}
    (h : field r cs = some (f, rest)) :
  ∃ cs₁ cs₂ cs₃, skipBlank cs = some '"' :: cs₁ ∧ text cs₁ = some (f.1, cs₂)
    ∧ skipBlank cs₂ = some ':' :: cs₃ ∧ r cs₃ = some (f.2, rest)
  := by
  simp only [field] at h
  split at h
  · next cs₁ hquote =>
    simp only [Option.bind_eq_bind, Option.bind_eq_some_iff] at h
    obtain ⟨⟨name, cs₂⟩, hname, h⟩ := h
    simp only at h
    split at h
    · next cs₃ hcolon =>
      simp only [Option.bind_eq_some_iff, Option.some.injEq, Prod.mk.injEq] at h
      obtain ⟨⟨v, cs₄⟩, hv, rfl, rfl⟩ := h
      exact ⟨cs₁, cs₂, cs₃, hquote, hname, hcolon, hv⟩
    · simp at h
  · simp at h

theorem field_extends {value value' : Reader Value} (hvalue : Extends value value') :
  Extends (field value) (field value')
  := by
  intro cs f rest h more hmore
  obtain ⟨cs₁, cs₂, cs₃, hquote, hname, hcolon, hv⟩ := field_inv h
  simp [field, skipBlank_append_of_eq hquote more, text_append hname more,
    skipBlank_append_of_eq hcolon more, hvalue hv more hmore]

theorem value_list {cs rest : List Symbol} (h : skipBlank cs = some '[' :: rest) (fuel : Nat) :
  value (fuel + 1) cs
    = (enclosed (value fuel) ']' fuel rest).map fun p => (.list p.1, p.2)
  := by
  simp only [value]
  rw [h]
  cases h' : enclosed (value fuel) ']' fuel rest <;> simp [h']

theorem value_record {cs rest : List Symbol} (h : skipBlank cs = some '{' :: rest) (fuel : Nat) :
  value (fuel + 1) cs
    = (enclosed (field (value fuel)) '}' fuel rest).map fun p => (recordValue p.1, p.2)
  := by
  simp only [value]
  rw [h]
  cases h' : enclosed (field (value fuel)) '}' fuel rest <;> simp [h']

/-- A document that is neither a list nor a record is read with any fuel. -/
theorem value_of_scalar {cs rest : List Symbol} {v : Value}
    (h : scalar (skipBlank cs) = some (v, rest)) (fuel : Nat) :
  value fuel cs = some (v, rest)
  := by
  cases fuel with
  | zero => exact h
  | succ fuel =>
    simp only [value]
    split
    · next cs' heq =>
      have hnone : scalar (some '[' :: cs') = none := rfl
      simp [heq, hnone] at h
    · next cs' heq =>
      have hnone : scalar (some '{' :: cs') = none := rfl
      simp [heq, hnone] at h
    · exact h

/-- What a document can be: neither a list nor a record, or one of these after its opening
bracket. -/
theorem value_inv {fuel : Nat} {cs rest : List Symbol} {v : Value}
    (h : value (fuel + 1) cs = some (v, rest)) :
  scalar (skipBlank cs) = some (v, rest)
    ∨ (∃ cs' items, skipBlank cs = some '[' :: cs'
      ∧ enclosed (value fuel) ']' fuel cs' = some (items, rest) ∧ v = .list items)
    ∨ ∃ cs' fields, skipBlank cs = some '{' :: cs'
      ∧ enclosed (field (value fuel)) '}' fuel cs' = some (fields, rest)
      ∧ v = recordValue fields
  := by
  simp only [value] at h
  split at h
  · next cs' heq =>
    simp only [Option.bind_eq_bind, Option.bind_eq_some_iff, Option.some.injEq,
      Prod.mk.injEq] at h
    obtain ⟨⟨items, rest'⟩, hitems, rfl, rfl⟩ := h
    exact Or.inr (Or.inl ⟨cs', items, heq, hitems, rfl⟩)
  · next cs' heq =>
    simp only [Option.bind_eq_bind, Option.bind_eq_some_iff, Option.some.injEq,
      Prod.mk.injEq] at h
    obtain ⟨⟨fields, rest'⟩, hfields, rfl, rfl⟩ := h
    exact Or.inr (Or.inr ⟨cs', fields, heq, hfields, rfl⟩)
  · exact Or.inl h

theorem value_append_of_scalar {cs rest : List Symbol} {v : Value}
    (h : scalar (skipBlank cs) = some (v, rest)) (fuel : Nat) {more : List Symbol}
    (hmore : Stops more) :
  value fuel (cs ++ more) = some (v, rest ++ more)
  := by
  have hne : skipBlank cs ≠ [] := by
    intro heq
    have hnone : scalar [] = none := rfl
    simp [heq, hnone] at h
  apply value_of_scalar
  rw [skipBlank_append hne]
  exact scalar_extends h more hmore

/-- A document is read the same way when more symbols follow and more fuel is there. -/
theorem value_extends {fuel fuel' : Nat} (hfuel : fuel ≤ fuel') :
  Extends (value fuel) (value fuel')
  := by
  induction fuel generalizing fuel' with
  | zero =>
    intro cs v rest h more hmore
    exact value_append_of_scalar h fuel' hmore
  | succ fuel ih =>
    intro cs v rest h more hmore
    obtain ⟨fuel', rfl⟩ : ∃ n, fuel' = n + 1 := ⟨fuel' - 1, by omega⟩
    have hle : fuel ≤ fuel' := by omega
    rcases value_inv h with hscalar | ⟨cs', items, hstart, hitems, rfl⟩
      | ⟨cs', fields, hstart, hfields, rfl⟩
    · exact value_append_of_scalar hscalar _ hmore
    · rw [value_list (skipBlank_append_of_eq hstart more),
        enclosed_extends (ih hle) _ hle hitems more hmore]
      rfl
    · rw [value_record (skipBlank_append_of_eq hstart more),
        enclosed_extends (field_extends (ih hle)) _ hle hfields more hmore]
      rfl

/-- More fuel does no harm. -/
theorem value_mono {fuel fuel' : Nat} (hfuel : fuel ≤ fuel') {cs rest : List Symbol} {v : Value}
    (h : value fuel cs = some (v, rest)) :
  value fuel' cs = some (v, rest)
  := by
  simpa using value_extends hfuel h [] stops_nil

end CorpusAudit.Json
