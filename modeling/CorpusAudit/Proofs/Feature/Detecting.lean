import CorpusAudit.Proofs.Feature.Scanning

/-!
# What a source goes on to show

A line holds a comprehension exactly if it can be cut into a bracket, ` for `, ` in ` and what is
around them (`Source.holdsComprehension_iff`).  So a line that is made longer still holds it, and a
source that is made longer still shows all features that it showed
(`FeatureSet.has_ofSource_append`).
-/

namespace CorpusAudit

namespace Text

theorem dropReturn_append_of_ne_nil {l q : List Char} (h : q ≠ []) :
  dropReturn (l ++ q) = l ++ dropReturn q
  := by
  rw [dropReturn, dropReturn, List.getLast?_append_of_ne_nil _ h]
  split
  · exact List.dropLast_append_of_ne_nil h
  · rfl

/-- A text without line feeds is one line. -/
theorem lines_of_not_mem {s : List Char} (h : '\n' ∉ s) :
  lines s = [s]
  := by
  rw [lines, List.splitOn_eq_singleton h]
  rfl

theorem lines_append_cons {l : List Char} (h : '\n' ∉ l) (s : List Char) :
  lines (l ++ '\n' :: s) = dropReturn l :: lines s
  := by
  obtain ⟨first, rest, hsplit⟩ := List.exists_cons_of_ne_nil (List.splitOn_ne_nil '\n' s)
  rw [lines, lines, List.splitOn_append_cons_self_of_not_mem h, hsplit]
  simp

/-- To prove something of all texts, prove it of a text without line feeds, and of a text that
goes on after its first line feed. -/
@[elab_as_elim]
theorem line_induction {motive : List Char → Prop} (line : ∀ s, '\n' ∉ s → motive s)
    (cut : ∀ first rest, '\n' ∉ first → motive rest → motive (first ++ '\n' :: rest))
    (s : List Char) :
  motive s
  := by
  induction hlength : s.length using Nat.strong_induction_on generalizing s with
  | _ n ih =>
    by_cases hs : '\n' ∈ s
    · obtain ⟨first, rest, rfl, hfirst⟩ := List.eq_append_cons_of_mem hs
      apply cut first rest hfirst
      exact ih rest.length (by simp at hlength; omega) rest rfl
    · exact line s hs

/-- A line of a text is the start of a line of every longer text.  It was the last line if
it goes on there, and may have lost a carriage return then. -/
theorem exists_line_append {s l : List Char} (h : l ∈ lines s) (t : List Char) :
  ∃ q, l ++ q ∈ lines (s ++ t) ∨ dropReturn (l ++ q) ∈ lines (s ++ t)
  := by
  induction s using line_induction with
  | line s hs =>
    obtain rfl : l = s := by simpa [lines_of_not_mem hs] using h
    by_cases ht : '\n' ∈ t
    · obtain ⟨first, rest, rfl, hfirst⟩ := List.eq_append_cons_of_mem ht
      have hline : '\n' ∉ l ++ first := by
        simp [hs, hfirst]
      use first
      right
      rw [← List.append_assoc, lines_append_cons hline]
      apply List.mem_cons_self
    · use t
      left
      have hline : '\n' ∉ l ++ t := by
        simp [hs, ht]
      rw [lines_of_not_mem hline]
      apply List.mem_cons_self
  | cut first rest hfirst ih =>
    rw [lines_append_cons hfirst, List.mem_cons] at h
    rw [List.append_assoc, List.cons_append, lines_append_cons hfirst]
    rcases h with rfl | h
    · use []
      left
      rw [List.append_nil]
      apply List.mem_cons_self
    · obtain ⟨q, hq⟩ := ih h
      use q
      exact hq.imp (List.mem_cons_of_mem _) (List.mem_cons_of_mem _)

end Text

namespace Source

/-- A line holds a comprehension exactly if it can be cut into a bracket, ` for `, ` in ` and what
is before, between and after them. -/
theorem holdsComprehension_iff {line : List Char} :
  HoldsComprehension (.ofList line)
    ↔ ∃ opening ∈ brackets, ∃ a b c d, line
      = a ++ (opening.toList ++ (b ++ (" for ".toList ++ (c ++ (" in ".toList ++ d)))))
  := by
  apply exists_congr
  intro opening
  apply and_congr_right
  intro hopening
  rw [HoldsClause, Text.standInTurn_cons_iff (ne_empty_of_mem_brackets hopening)]
  constructor
  · rintro ⟨a, r, rfl, hr⟩
    obtain ⟨b, r', rfl, hr'⟩ := (Text.standInTurn_cons_iff (by decide)).mp hr
    obtain ⟨c, d, rfl, -⟩ := (Text.standInTurn_cons_iff (by decide)).mp hr'
    exact ⟨a, b, c, d, rfl⟩
  · rintro ⟨a, b, c, d, rfl⟩
    refine ⟨a, _, rfl, (Text.standInTurn_cons_iff (by decide)).mpr ⟨b, _, rfl, ?_⟩⟩
    exact (Text.standInTurn_cons_iff (by decide)).mpr ⟨c, d, rfl, trivial⟩

theorem holdsComprehension_append {line : List Char} (h : HoldsComprehension (.ofList line))
    (q : List Char) :
  HoldsComprehension (.ofList (line ++ q))
  := by
  obtain ⟨opening, hopening, a, b, c, d, rfl⟩ := holdsComprehension_iff.mp h
  exact holdsComprehension_iff.mpr
    ⟨opening, hopening, a, b, c, d ++ q, by simp only [List.append_assoc]⟩

/-- A comprehension does not depend on a carriage return at the end of its line. -/
theorem holdsComprehension_dropReturn {line : List Char}
    (h : HoldsComprehension (.ofList line)) :
  HoldsComprehension (.ofList (Text.dropReturn line))
  := by
  obtain ⟨opening, hopening, a, b, c, d, rfl⟩ := holdsComprehension_iff.mp h
  have hend : " in ".toList ++ Text.dropReturn d = Text.dropReturn (" in ".toList ++ d) := by
    by_cases hd : d = []
    · subst hd
      decide
    · rw [Text.dropReturn_append_of_ne_nil hd]
  have hline : a ++ (opening.toList ++ (b ++ (" for ".toList ++ (c ++ (" in ".toList ++ d)))))
      = (a ++ opening.toList ++ b ++ " for ".toList ++ c) ++ (" in ".toList ++ d) := by
    simp only [List.append_assoc]
  refine holdsComprehension_iff.mpr ⟨opening, hopening, a, b, c, Text.dropReturn d, ?_⟩
  rw [hline, Text.dropReturn_append_of_ne_nil (by simp), ← hend]
  simp only [List.append_assoc]

theorem hasComprehension_append {source : List Char} (h : hasComprehension source = true)
    (more : List Char) :
  hasComprehension (source ++ more) = true
  := by
  rw [hasComprehension_iff] at h ⊢
  obtain ⟨line, hline, hholds⟩ := h
  obtain ⟨q, hq | hq⟩ := Text.exists_line_append hline more
  · exact ⟨_, hq, holdsComprehension_append hholds q⟩
  · exact ⟨_, hq, holdsComprehension_dropReturn (holdsComprehension_append hholds q)⟩

theorem shows_of_ne_comprehension {f : Feature} (h : f ≠ .comprehension) (source : List Char) :
  shows source f = f.markers.any fun m => Text.occursIn m.toList ('\n' :: source)
  := by
  rw [shows]
  exact h

/-- A source shows what its start shows. -/
theorem shows_append {source : List Char} {f : Feature} (h : shows source f = true)
    (more : List Char) :
  shows (source ++ more) f = true
  := by
  by_cases hf : f = .comprehension
  · subst hf
    exact hasComprehension_append h more
  · rw [shows_of_ne_comprehension hf, List.any_eq_true] at h ⊢
    obtain ⟨m, hm, hoccurs⟩ := h
    refine ⟨m, hm, ?_⟩
    rw [Text.occursIn_iff] at hoccurs ⊢
    rw [← List.cons_append]
    exact hoccurs.trans (List.prefix_append _ more).isInfix

end Source

/-- The features of a source are among those of every longer source. -/
theorem FeatureSet.has_ofSource_append {source : String} {f : Feature}
    (h : (ofSource source).has f = true) (more : String) :
  (ofSource (source ++ more)).has f = true
  := by
  rw [has_ofSource] at h ⊢
  rw [String.toList_append]
  exact Source.shows_append h more.toList

end CorpusAudit
