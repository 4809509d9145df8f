import CorpusAudit.Feature.Detect
import CorpusAudit.Proofs.Text.Positions

/-!
# The search for comprehensions

A line is searched for a comprehension by its first bracket, the first ` for ` behind it and a
` in ` behind that.  The search always has an answer, as it cuts the line between characters
only, and nothing is lost by the first places: a comprehension is found exactly if a bracket,
` for ` and ` in ` stand somewhere on a line one after the other (`finds_comprehensions`).
-/

namespace CorpusAudit.Source

/-! ### Searches that have an answer -/

/-- There is an answer, and it says whether `P` holds. -/
def Decides (answer : Option Bool) (P : Prop) : Prop :=
  ∃ b, answer = some b ∧ (b = true ↔ P)

theorem decides_anyM {α : Type} {search : α → Option Bool} {P : α → Prop} {l : List α}
    (h : ∀ a ∈ l, Decides (search a) (P a)) :
  Decides (l.anyM search) (∃ a ∈ l, P a)
  := by
  induction l with
  | nil => exact ⟨false, rfl, by simp⟩
  | cons a l ih =>
    rw [List.forall_mem_cons] at h
    obtain ⟨b, hb, hP⟩ := h.1
    simp only [List.anyM_cons, hb, List.exists_mem_cons_iff, ← hP]
    cases b with
    | true => exact ⟨true, rfl, by simp⟩
    | false => simpa using ih h.2

/-! ### Clauses -/

/-- The bracket, ` for ` and ` in ` stand on the line one after the other. -/
def HoldsClause (opening line : String) : Prop :=
  Text.StandInTurn line [opening, " for ", " in "] 0

/-- A clause follows one of the brackets. -/
def HoldsComprehension (line : String) : Prop :=
  ∃ opening ∈ brackets, HoldsClause opening line

/-- The places where the search cuts the line are between characters: the one behind the first
bracket, and in the rest the one behind the first ` for `. -/
def CutsBetweenCharacters (opening line : String) : Prop :=
  ∀ i, Text.position? opening line = some i →
    (String.Pos.Raw.mk (i + 1)).IsValid line
      ∧ ∀ rest, Text.sliceFrom? line (i + 1) = some rest →
        ∀ j, Text.position? " for " rest = some j → (String.Pos.Raw.mk (j + 5)).IsValid rest

theorem utf8ByteSize_of_mem_brackets {opening : String} (h : opening ∈ brackets) :
  opening.utf8ByteSize = 1
  := by
  rcases List.mem_pair.mp h with rfl | rfl <;> rfl

section

variable {opening : String} (h : opening ∈ brackets) (line : String)

include h

theorem ne_empty_of_mem_brackets :
  opening ≠ ""
  := by
  rcases List.mem_pair.mp h with rfl | rfl <;> decide

/-- A bracket is one byte long, and ` for ` is five bytes long. -/
theorem cutsBetweenCharacters :
  CutsBetweenCharacters opening line
  := by
  intro i hi
  rw [← utf8ByteSize_of_mem_brackets h]
  refine ⟨Text.isValid_behind (ne_empty_of_mem_brackets h) hi, ?_⟩
  intro rest _ j hj
  exact Text.isValid_behind (by decide) hj

/-- The search of a line has an answer, and the answer is right. -/
theorem decides_clauseAfter? :
  Decides (clauseAfter? opening line) (HoldsClause opening line)
  := by
  rw [clauseAfter?, HoldsClause]
  -- the cases are those of the search: no bracket, no ` for ` behind it, both
  cases hi : Text.position? opening line with
  | none => exact ⟨false, rfl, by simp [Text.not_standInTurn_of_position? hi]⟩
  | some i =>
    obtain ⟨afterOpening, hcut, hturn⟩ :=
      Text.exists_sliceFrom? (ne_empty_of_mem_brackets h) hi
    rw [utf8ByteSize_of_mem_brackets h] at hcut
    simp only [hcut, hturn, Option.bind_eq_bind, Option.bind_some]
    cases hj : Text.position? " for " afterOpening with
    | none => exact ⟨false, rfl, by simp [Text.not_standInTurn_of_position? hj]⟩
    | some j =>
      obtain ⟨afterFor, hcut, hturn⟩ := Text.exists_sliceFrom? (by decide) hj
      have hcut : Text.sliceFrom? afterOpening (j + 5) = some afterFor := hcut
      simp only [hcut, hturn, Option.bind_some]
      exact ⟨_, rfl, Text.isSome_position?_iff⟩

end

theorem decides_comprehension? (source : List Char) :
  Decides (comprehension? source)
    (∃ line ∈ Text.lines source, HoldsComprehension (.ofList line))
  := by
  apply decides_anyM
  intro line _
  apply decides_anyM
  intro opening hopening
  exact decides_clauseAfter? hopening (.ofList line)

theorem hasComprehension_iff {source : List Char} :
  hasComprehension source = true ↔ ∃ line ∈ Text.lines source, HoldsComprehension (.ofList line)
  := by
  obtain ⟨b, hb, hiff⟩ := decides_comprehension? source
  rw [hasComprehension, hb, Option.getD_some, hiff]

/-- Comprehensions by the positions of their parts. -/
theorem holdsComprehension_iff_positions {line : String} :
  HoldsComprehension line
    ↔ ∃ i j k, (Text.StandsAt "[" line i ∨ Text.StandsAt "\x7b" line i)
      ∧ i + 1 ≤ j ∧ Text.StandsAt " for " line j
      ∧ j + 5 ≤ k ∧ Text.StandsAt " in " line k
  := by
  constructor
  · rintro ⟨opening, hopening, i, -, hi, j, hij, hj, k, hjk, hk, -⟩
    rw [utf8ByteSize_of_mem_brackets hopening] at hij
    have hbracket : Text.StandsAt "[" line i ∨ Text.StandsAt "\x7b" line i := by
      rcases List.mem_pair.mp hopening with rfl | rfl
      · exact Or.inl hi
      · exact Or.inr hi
    exact ⟨i, j, k, hbracket, hij, hj, hjk, hk⟩
  · rintro ⟨i, j, k, hbracket, hij, hj, hjk, hk⟩
    obtain ⟨opening, hopening, hi⟩ : ∃ opening ∈ brackets, Text.StandsAt opening line i := by
      simpa [brackets] using hbracket
    rw [← utf8ByteSize_of_mem_brackets hopening] at hij
    exact ⟨opening, hopening, i, Nat.zero_le i, hi, j, hij, hj, k, hjk, hk, trivial⟩

/-- The search for comprehensions always has an answer, and cuts lines between characters only.
A comprehension is found exactly if on some line a bracket stands at some position, ` for `
behind it, and ` in ` behind ` for `. -/
theorem finds_comprehensions (source : String) :
  comprehension? source.toList = some (hasComprehension source.toList)
    ∧ (∀ line ∈ Text.lines source.toList, ∀ opening ∈ brackets,
      CutsBetweenCharacters opening (.ofList line))
    ∧ (hasComprehension source.toList = true
      ↔ ∃ line ∈ Text.lines source.toList, ∃ i j k,
        (Text.StandsAt "[" (.ofList line) i ∨ Text.StandsAt "\x7b" (.ofList line) i)
          ∧ i + 1 ≤ j ∧ Text.StandsAt " for " (.ofList line) j
          ∧ j + 5 ≤ k ∧ Text.StandsAt " in " (.ofList line) k)
  := by
  refine ⟨?answer, ?cuts, ?found⟩
  case answer =>
    obtain ⟨b, hb, -⟩ := decides_comprehension? source.toList
    rw [hasComprehension, hb, Option.getD_some]
  case cuts =>
    intro line _ opening hopening
    exact cutsBetweenCharacters hopening (.ofList line)
  case found =>
    rw [hasComprehension_iff]
    simp only [holdsComprehension_iff_positions]

/-- Positions count bytes: each letter here is two bytes long. -/
theorem finds_comprehensions_wideLetters :
  comprehension? "ß = [é for é in ü]".toList = some true
  := by
  have hfound : hasComprehension "ß = [é for é in ü]".toList = true := by
    apply (finds_comprehensions "ß = [é for é in ü]").2.2.mpr
    exact ⟨"ß = [é for é in ü]".toList, by decide +kernel, 5, 8, 15, by decide +kernel⟩
  rw [(finds_comprehensions "ß = [é for é in ü]").1, hfound]

end CorpusAudit.Source
