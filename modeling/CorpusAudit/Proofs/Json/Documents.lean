import CorpusAudit.Proofs.Json.Locality
import CorpusAudit.Proofs.Value
import Mathlib.Data.List.Forall2

/-!
# Whole documents

A document is the whole of a text up to blanks (`IsDocument`).  Blanks may be added after
it, and the documents of a list, put between brackets and separated by commas, make one
document, that of the list of their values.
-/

namespace CorpusAudit.Json

open Text (Symbol)

/-- A text holds a value and nothing else but blanks. -/
def IsDocument (cs : List Symbol) (v : Value) : Prop :=
  ∃ rest, value cs.length cs = some (v, rest) ∧ skipBlank rest = []

theorem read?_eq_some_iff {cs : List Symbol} {w : Value} :
  read? cs = some w ↔ ∃ v, IsDocument cs v ∧ v.limit maxDepth = w
  := by
  simp only [read?, IsDocument, Option.bind_eq_bind, Option.bind_eq_some_iff, List.isEmpty_iff]
  constructor
  · rintro ⟨⟨v, rest⟩, hv, h⟩
    split at h
    · next hrest =>
      simp only [Option.some.injEq] at h
      exact ⟨v, ⟨rest, hv, hrest⟩, h⟩
    · simp at h
  · rintro ⟨v, ⟨rest, hv, hrest⟩, rfl⟩
    exact ⟨(v, rest), hv, by rw [if_pos hrest]⟩

/-- A document is read in front of anything that does not go on with a number. -/
theorem IsDocument.extend {cs : List Symbol} {v : Value} (h : IsDocument cs v) {fuel : Nat}
    (hfuel : cs.length ≤ fuel) {more : List Symbol} (hmore : Stops more) :
  ∃ rest, value fuel (cs ++ more) = some (v, rest) ∧ skipBlank rest = skipBlank more
  := by
  obtain ⟨rest, hv, hrest⟩ := h
  refine ⟨rest ++ more, value_extends hfuel hv more hmore, ?_⟩
  simp only [skipBlank] at hrest ⊢
  rw [List.dropWhile_append, hrest]
  rfl

theorem stops_cons {c : Char} (h : Decimal.isDigit c = false ∧ c ≠ '.' ∧ c ≠ 'e' ∧ c ≠ 'E')
    (cs : List Symbol) :
  Stops (some c :: cs)
  := by
  simpa [Stops, isDigit] using h

/-- A carriage return may follow a document. -/
theorem IsDocument.concat_return {cs : List Symbol} {v : Value} (h : IsDocument cs v) :
  IsDocument (cs ++ [some '\r']) v
  := by
  apply h.extend
  · simp
  · exact stops_cons (by decide) []

/-! ### Lists of documents -/

theorem value_skipBlank (fuel : Nat) (cs : List Symbol) :
  value fuel (skipBlank cs) = value fuel cs
  := by
  cases fuel <;> simp only [value, skipBlank_skipBlank]

/-- Nothing is read where neither a list nor a record nor anything else begins. -/
theorem value_eq_none (fuel : Nat) {cs ds : List Symbol} (hskip : skipBlank cs = ds)
    (hlist : ds.head? ≠ some (some '[')) (hrecord : ds.head? ≠ some (some '{'))
    (hscalar : scalar ds = none) :
  value fuel cs = none
  := by
  cases fuel with
  | zero => rw [value, hskip, hscalar]
  | succ fuel =>
    simp only [value]
    split
    · next heq => simp [← hskip, heq] at hlist
    · next heq => simp [← hskip, heq] at hrecord
    · rw [hskip, hscalar]

/-- What may stand first between brackets: items that do not start with a blank that they
need, nor with the closing bracket. -/
structure Opens {α : Type} (item : Reader α) (close : Char) : Prop where
  skipBlank : ∀ cs, item (skipBlank cs) = item cs
  close : ∀ cs, item (some close :: cs) = none
  nil : item [] = none

theorem opens_value (fuel : Nat) :
  Opens (value fuel) ']'
  where
    skipBlank := value_skipBlank fuel
    close cs := by
      have hskip : Json.skipBlank (some ']' :: cs) = some ']' :: cs := rfl
      exact value_eq_none fuel hskip (by simp) (by simp) rfl
    nil := by
      have hskip : Json.skipBlank [] = [] := rfl
      exact value_eq_none fuel hskip (by simp) (by simp) rfl

theorem opens_field (fuel : Nat) :
  Opens (field (value fuel)) '}'
  where
    skipBlank cs := by simp only [field, skipBlank_skipBlank]
    close _ := rfl
    nil := rfl

/-- Items that are read one after the other are read between brackets. -/
theorem enclosed_of_separated {α : Type} {item : Reader α} {close : Char} (h : Opens item close)
    {fuel : Nat} {cs rest : List Symbol} {as : List α}
    (hseparated : separated item close fuel cs = some (as, rest)) :
  enclosed item close fuel cs = some (as, rest)
  := by
  cases fuel with
  | zero => simp [separated] at hseparated
  | succ fuel =>
    have hskip : separated item close (fuel + 1) (skipBlank cs) = some (as, rest) := by
      rw [← hseparated]
      simp only [separated, h.skipBlank]
    cases hblank : skipBlank cs with
    | nil => simp [hblank, separated, h.nil] at hskip
    | cons c ds =>
      have hc : c ≠ some close := by
        rintro rfl
        simp [hblank, separated, h.close] at hskip
      rw [hblank] at hskip
      simp only [enclosed, hblank, if_neg hc, hskip]

/-- The texts separated by commas. -/
def separate (texts : List (List Symbol)) : List Symbol :=
  [some ','].intercalate texts

theorem separate_cons_cons (cs ds : List Symbol) (texts : List (List Symbol)) :
  separate (cs :: ds :: texts) = cs ++ some ',' :: separate (ds :: texts)
  := by
  simp [separate, List.intercalate_cons_cons]

theorem length_le_separate {cs : List Symbol} {texts : List (List Symbol)} (h : cs ∈ texts) :
  cs.length ≤ (separate texts).length
  := by
  induction texts with
  | nil => simp at h
  | cons ds texts ih =>
    cases texts with
    | nil => simp_all [separate]
    | cons es texts =>
      rw [separate_cons_cons, List.length_append, List.length_cons]
      rcases List.mem_cons.mp h with rfl | h
      · omega
      · have := ih h
        omega

theorem length_le_separate_succ (texts : List (List Symbol)) :
  texts.length ≤ (separate texts).length + 1
  := by
  induction texts with
  | nil => simp
  | cons cs texts ih =>
    cases texts with
    | nil => simp
    | cons ds texts =>
      rw [separate_cons_cons, List.length_append, List.length_cons, List.length_cons]
      simp only [List.length_cons] at ih ⊢
      omega

theorem separated_separate {texts : List (List Symbol)} {vs : List Value}
    (h : List.Forall₂ IsDocument texts vs) (hne : texts ≠ []) {fuel steps : Nat}
    (hfuel : ∀ cs ∈ texts, cs.length ≤ fuel) (hsteps : texts.length ≤ steps)
    (more : List Symbol) :
  separated (value fuel) ']' steps (separate texts ++ some ']' :: more) = some (vs, more)
  := by
  induction h generalizing steps with
  | nil => exact absurd rfl hne
  | @cons cs v texts vs hcs htexts ih =>
    obtain ⟨steps, rfl⟩ : ∃ n, steps = n + 1 := ⟨steps - 1, by simp at hsteps; omega⟩
    have hlength : cs.length ≤ fuel := hfuel cs (by simp)
    have hclose : Stops (some ']' :: more) := stops_cons (by decide) more
    cases htexts with
    | nil =>
      obtain ⟨rest, hv, hrest⟩ := hcs.extend hlength hclose
      have hblank : skipBlank (some ']' :: more) = some ']' :: more := rfl
      have hcomma : (some ']' : Symbol) ≠ some ',' := by decide
      simp [separate, separated, hv, hrest, hblank, hcomma]
    | @cons ds w texts vs hds htexts =>
      let others := separate (ds :: texts) ++ some ']' :: more
      have hothers : separate (cs :: ds :: texts) ++ some ']' :: more
          = cs ++ some ',' :: others := by
        simp [separate_cons_cons, others]
      obtain ⟨rest, hv, hrest⟩ := hcs.extend hlength (stops_cons (c := ',') (by decide) others)
      have hblank : skipBlank (some ',' :: others) = some ',' :: others := rfl
      have hlength' : (ds :: texts).length ≤ steps := Nat.le_of_succ_le_succ hsteps
      have hmore := ih (by simp) (fun cs hcs => hfuel cs (List.mem_cons_of_mem _ hcs)) hlength'
      rw [hothers]
      simp [separated, hv, hrest, hblank, others, hmore]

theorem enclosed_separate {texts : List (List Symbol)} {vs : List Value}
    (h : List.Forall₂ IsDocument texts vs) {fuel : Nat}
    (hfuel : ∀ cs ∈ texts, cs.length ≤ fuel) (hlength : texts.length ≤ fuel)
    (more : List Symbol) :
  enclosed (value fuel) ']' fuel (separate texts ++ some ']' :: more) = some (vs, more)
  := by
  by_cases hne : texts = []
  · subst hne
    cases h
    rfl
  · exact enclosed_of_separated (opens_value fuel) (separated_separate h hne hfuel hlength more)

/-- Documents between brackets and separated by commas are one document. -/
theorem isDocument_list {texts : List (List Symbol)} {vs : List Value}
    (h : List.Forall₂ IsDocument texts vs) :
  IsDocument (some '[' :: (separate texts ++ [some ']'])) (.list vs)
  := by
  refine ⟨[], ?_, rfl⟩
  have hblank : skipBlank (some '[' :: (separate texts ++ [some ']']))
      = some '[' :: (separate texts ++ [some ']']) := rfl
  rw [List.length_cons, value_list hblank, enclosed_separate h]
  · rfl
  · intro cs hcs
    have := length_le_separate hcs
    simp only [List.length_append, List.length_cons, List.length_nil]
    omega
  · simpa using length_le_separate_succ texts

end CorpusAudit.Json
