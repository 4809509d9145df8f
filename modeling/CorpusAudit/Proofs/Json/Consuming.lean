import CorpusAudit.Proofs.Json.Documents

/-!
# Every reader goes on

A reader that reads something leaves fewer symbols than it was given (`Advances`).  So a list
or a record of which the inside is read has a symbol more than its inside, and as much fuel as
there are symbols is enough: what is read with more is read with this (`value_of_enough`).
Hence a document may have blanks before it, which are counted among its symbols but need no
fuel (`read?_cons_blank`).
-/

namespace CorpusAudit.Json

open Text (Symbol)

variable {α β : Type} {cs rest : List Symbol}

/-- What is left by a reader is shorter. -/
def Advances (r : Reader α) : Prop :=
  ∀ {cs : List Symbol} {a : α} {rest : List Symbol}, r cs = some (a, rest) →
    rest.length < cs.length

theorem length_skipBlank_le (cs : List Symbol) :
  (skipBlank cs).length ≤ cs.length
  := (List.dropWhile_sublist isBlank).length_le

theorem length_lt_of_skipBlank {c : Symbol} (h : skipBlank cs = c :: rest) :
  rest.length < cs.length
  := by
  have hle := length_skipBlank_le cs
  rw [h, List.length_cons] at hle
  exact hle

/-! ### Numbers -/

theorem digits_advances :
  Advances digits
  := by
  intro cs ds rest h
  simp only [digits] at h
  split at h
  · simp at h
  · next hds =>
    simp only [Option.some.injEq, Prod.mk.injEq] at h
    obtain ⟨-, rfl⟩ := h
    have htake : 0 < (cs.takeWhile isDigit).length := by
      apply List.length_pos_iff.mpr
      intro hnil
      simp [hnil] at hds
    have hlength := congrArg List.length (List.takeWhile_append_dropWhile (p := isDigit) (l := cs))
    rw [List.length_append] at hlength
    omega

theorem wholePart_advances :
  Advances wholePart
  := by
  intro cs ds rest h
  by_cases hzero : cs.head? = some (some '0')
  · obtain ⟨cs, rfl⟩ := List.head?_eq_some_iff.mp hzero
    simp only [wholePart, Option.some.injEq, Prod.mk.injEq] at h
    rw [← h.2]
    simp
  · rw [wholePart_of_ne hzero] at h
    exact digits_advances h

theorem length_le_of_fractionPart {a : Bool × List Char} (h : fractionPart cs = some (a, rest)) :
  rest.length ≤ cs.length
  := by
  by_cases hpoint : cs.head? = some (some '.')
  · obtain ⟨cs, rfl⟩ := List.head?_eq_some_iff.mp hpoint
    simp only [fractionPart, Option.bind_eq_bind, Option.bind_eq_some_iff, Option.some.injEq,
      Prod.mk.injEq] at h
    obtain ⟨⟨ds, rest'⟩, hds, -, rfl⟩ := h
    have := digits_advances hds
    simp only [List.length_cons]
    omega
  · rw [fractionPart_of_ne hpoint] at h
    simp only [Option.some.injEq, Prod.mk.injEq] at h
    rw [h.2]

theorem length_signPart_le (cs : List Symbol) :
  (signPart cs).2.length ≤ cs.length
  := by
  unfold signPart
  split <;> simp

theorem length_le_of_exponentPart {a : Option (Bool × List Char)}
    (h : exponentPart cs = some (a, rest)) :
  rest.length ≤ cs.length
  := by
  cases cs with
  | nil =>
    simp only [exponentPart, Option.some.injEq, Prod.mk.injEq] at h
    rw [h.2]
  | cons c cs =>
    rw [exponentPart] at h
    split at h
    · simp only [Option.bind_eq_bind, Option.bind_eq_some_iff, Option.some.injEq,
        Prod.mk.injEq] at h
      obtain ⟨⟨ds, rest'⟩, hds, -, rfl⟩ := h
      have := digits_advances hds
      have := length_signPart_le cs
      simp only [List.length_cons]
      omega
    · simp only [Option.some.injEq, Prod.mk.injEq] at h
      rw [h.2]

theorem number_advances (negative : Bool) :
  Advances (number negative)
  := by
  intro cs v rest h
  simp only [number, numeral, Option.bind_eq_bind, Option.bind_eq_some_iff, Option.some.injEq,
    Prod.mk.injEq] at h
  obtain ⟨_, ⟨⟨ds, cs₁⟩, hwhole, ⟨⟨hasPoint, fraction⟩, cs₂⟩, hfraction, ⟨exponent, cs₃⟩, hexponent,
    rfl⟩, -, rfl⟩ := h
  dsimp only at hfraction hexponent ⊢
  have := wholePart_advances hwhole
  have := length_le_of_fractionPart hfraction
  have := length_le_of_exponentPart hexponent
  omega

/-! ### Texts -/

theorem untilQuote_advances :
  Advances untilQuote
  := by
  intro cs ds rest h
  fun_induction untilQuote cs generalizing ds rest with
  | case1 => simp at h
  | case2 cs =>
    simp only [Option.some.injEq, Prod.mk.injEq] at h
    rw [← h.2]
    simp
  | case3 => simp at h
  | case4 d cs hq ih =>
    simp only [Option.bind_eq_bind, Option.bind_eq_some_iff, Option.some.injEq,
      Prod.mk.injEq] at h
    obtain ⟨⟨es, rest'⟩, hes, -, rfl⟩ := h
    have := ih hes
    simp only [List.length_cons]
    omega
  | case5 c cs hq hb ih =>
    simp only [Option.bind_eq_bind, Option.bind_eq_some_iff, Option.some.injEq,
      Prod.mk.injEq] at h
    obtain ⟨⟨es, rest'⟩, hes, -, rfl⟩ := h
    have := ih hes
    simp only [List.length_cons]
    omega

theorem text_advances :
  Advances text
  := by
  intro cs ds rest h
  simp only [text, Option.bind_eq_bind, Option.bind_eq_some_iff, Option.some.injEq,
    Prod.mk.injEq] at h
  obtain ⟨⟨es, rest'⟩, hes, ms, -, -, rfl⟩ := h
  exact untilQuote_advances hes

theorem scalar_advances :
  Advances scalar
  := by
  intro cs v rest h
  rcases scalar_inv h with ⟨w, hw, rfl, -⟩ | ⟨cs', s, rfl, hs, -⟩ | ⟨cs', rfl, hv⟩ | hv
  · have hpos : 0 < w.1.length := by
      revert hw w
      simp [words]
    rw [List.length_append]
    omega
  · exact Nat.lt_succ_of_lt (text_advances hs)
  · exact Nat.lt_succ_of_lt (number_advances true hv)
  · exact number_advances false hv

/-! ### Lists and records -/

theorem separated_advances {item : Reader α} (hitem : Advances item) (close : Char) (fuel : Nat) :
  Advances (separated item close fuel)
  := by
  intro cs as rest h
  induction fuel generalizing cs as with
  | zero => simp [separated] at h
  | succ fuel ih =>
    obtain ⟨a, cs₁, c, cs₂, ha, hblank, hmore⟩ := separated_inv h
    have hlt := hitem ha
    have hlt' := length_lt_of_skipBlank hblank
    rcases hmore with ⟨-, as', has, -⟩ | ⟨-, -, -, rfl⟩
    · have := ih has
      omega
    · omega

theorem enclosed_advances {item : Reader α} (hitem : Advances item) (close : Char) (fuel : Nat) :
  Advances (enclosed item close fuel)
  := by
  intro cs as rest h
  obtain ⟨c, cs', hblank, ⟨-, -, rfl⟩ | ⟨-, has⟩⟩ := enclosed_inv h
  · exact length_lt_of_skipBlank hblank
  · have hlt := separated_advances hitem close fuel has
    have hle := length_skipBlank_le cs
    rw [hblank] at hle
    exact Nat.lt_of_lt_of_le hlt hle

theorem field_advances {r : Reader Value} (hr : Advances r) :
  Advances (field r)
  := by
  intro cs f rest h
  obtain ⟨cs₁, cs₂, cs₃, hquote, hname, hcolon, hv⟩ := field_inv h
  have := length_lt_of_skipBlank hquote
  have := text_advances hname
  have := length_lt_of_skipBlank hcolon
  have := hr hv
  omega

theorem value_advances (fuel : Nat) :
  Advances (value fuel)
  := by
  induction fuel with
  | zero =>
    intro cs v rest h
    exact Nat.lt_of_lt_of_le (scalar_advances h) (length_skipBlank_le cs)
  | succ fuel ih =>
    intro cs v rest h
    rcases value_inv h with hscalar | ⟨cs', items, hstart, hitems, rfl⟩
      | ⟨cs', fields, hstart, hfields, rfl⟩
    · exact Nat.lt_of_lt_of_le (scalar_advances hscalar) (length_skipBlank_le cs)
    · exact (enclosed_advances ih _ _ hitems).trans (length_lt_of_skipBlank hstart)
    · exact (enclosed_advances (field_advances ih) _ _ hfields).trans
        (length_lt_of_skipBlank hstart)

/-! ### Enough fuel -/

/-- What `r` reads is read by `r'`, as far as there are no more than `n` symbols. -/
def ExtendsUpTo (n : Nat) (r r' : Reader α) : Prop :=
  ∀ {cs : List Symbol} {a : α} {rest : List Symbol}, cs.length ≤ n →
    r cs = some (a, rest) → r' cs = some (a, rest)

variable {item item' : Reader α} {n : Nat}

theorem separated_extendsUpTo (h : ExtendsUpTo n item item') (hitem : Advances item) (close : Char)
    (fuel : Nat) {fuel' : Nat} (hfuel : n ≤ fuel') :
  ExtendsUpTo n (separated item close fuel) (separated item' close fuel')
  := by
  intro cs as rest hcs hread
  -- each item takes a symbol at least, so the symbols that are left bound the steps
  have hsteps : ∀ fuel' : Nat, cs.length ≤ fuel' →
      separated item' close fuel' cs = some (as, rest) := by
    clear hfuel
    induction fuel generalizing cs as with
    | zero => simp [separated] at hread
    | succ fuel ih =>
      intro fuel' hfuel
      obtain ⟨a, cs₁, c, cs₂, ha, hblank, hmore⟩ := separated_inv hread
      have hlt := hitem ha
      have hlt' := length_lt_of_skipBlank hblank
      obtain ⟨fuel', rfl⟩ : ∃ n, fuel' = n + 1 := ⟨fuel' - 1, by omega⟩
      rcases hmore with ⟨rfl, as', has, rfl⟩ | ⟨hcomma, rfl, rfl, rfl⟩
      · simp [separated, h hcs ha, hblank, ih (by omega) has fuel' (by omega)]
      · simp [separated, h hcs ha, hblank, hcomma]
  exact hsteps fuel' (hcs.trans hfuel)

theorem enclosed_extendsUpTo (h : ExtendsUpTo n item item') (hitem : Advances item) (close : Char)
    (fuel : Nat) {fuel' : Nat} (hfuel : n ≤ fuel') :
  ExtendsUpTo n (enclosed item close fuel) (enclosed item' close fuel')
  := by
  intro cs as rest hcs hread
  obtain ⟨c, cs', hblank, ⟨rfl, rfl, rfl⟩ | ⟨hc, has⟩⟩ := enclosed_inv hread
  · simp [enclosed, hblank]
  · have hlength : (c :: cs').length ≤ n := hblank ▸ (length_skipBlank_le cs).trans hcs
    have hitems := separated_extendsUpTo h hitem close fuel hfuel hlength has
    simp [enclosed, hblank, hc, hitems]

theorem field_extendsUpTo {r r' : Reader Value} (h : ExtendsUpTo n r r') :
  ExtendsUpTo n (field r) (field r')
  := by
  intro cs f rest hcs hread
  obtain ⟨cs₁, cs₂, cs₃, hquote, hname, hcolon, hv⟩ := field_inv hread
  have := length_lt_of_skipBlank hquote
  have := text_advances hname
  have := length_lt_of_skipBlank hcolon
  simp [field, hquote, hname, hcolon, h (by omega) hv]

/-- As much fuel as there are symbols is enough. -/
theorem value_extendsUpTo {fuel fuel' : Nat} :
  ExtendsUpTo fuel' (value fuel) (value fuel')
  := by
  induction fuel' generalizing fuel with
  | zero =>
    intro cs v rest hcs h
    have := value_advances fuel h
    omega
  | succ fuel' ih =>
    intro cs v rest hcs h
    cases fuel with
    | zero => exact value_of_scalar h _
    | succ fuel =>
      rcases value_inv h with hscalar | ⟨cs', items, hstart, hitems, rfl⟩
        | ⟨cs', fields, hstart, hfields, rfl⟩
      · exact value_of_scalar hscalar _
      · have hlt := length_lt_of_skipBlank hstart
        rw [value_list hstart, enclosed_extendsUpTo ih (value_advances fuel) _ fuel (Nat.le_refl _)
          (by omega) hitems]
        rfl
      · have hlt := length_lt_of_skipBlank hstart
        rw [value_record hstart, enclosed_extendsUpTo (field_extendsUpTo ih)
          (field_advances (value_advances fuel)) _ fuel (Nat.le_refl _) (by omega) hfields]
        rfl

/-! ### Blanks before a document -/

theorem isDocument_cons_iff {c : Symbol} (hc : isBlank c = true) {v : Value} :
  IsDocument (c :: cs) v ↔ IsDocument cs v
  := by
  have hskip (fuel : Nat) : value fuel (c :: cs) = value fuel cs := by
    rw [← value_skipBlank, skipBlank, List.dropWhile_cons_of_pos hc, ← skipBlank, value_skipBlank]
  simp only [IsDocument, hskip, List.length_cons]
  constructor
  · rintro ⟨rest, hv, hrest⟩
    exact ⟨rest, value_extendsUpTo (Nat.le_refl _) hv, hrest⟩
  · rintro ⟨rest, hv, hrest⟩
    exact ⟨rest, value_mono (Nat.le_succ _) hv, hrest⟩

/-- A blank may stand before a document, or before what is none. -/
theorem read?_cons_blank {c : Symbol} (hc : isBlank c = true) (cs : List Symbol) :
  read? (c :: cs) = read? cs
  := by
  apply Option.ext
  intro v
  simp only [read?_eq_some_iff, isDocument_cons_iff hc]

end CorpusAudit.Json
