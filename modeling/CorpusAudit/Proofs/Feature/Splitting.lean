import CorpusAudit.Proofs.Feature.Detecting

/-!
# Features line by line

No marker goes on after a line break, and a comprehension stands on one line.  So a source that
is cut at a line break shows what one of its parts shows, and a source shows what its lines
show (`FeatureSet.ofSource_splits`).  The marker of a decorator starts with a line break: it
stands in the part after the break, as every source is searched with a line feed in front.  It
may start in the part before the break, where that ends in a carriage return; but then the rest
of it is a marker too.
-/

namespace CorpusAudit

namespace Text

variable {c : Char} {p : List Char}

/-! ### Pieces on one side of a character -/

/-- The start of a text without a character ends before its first place. -/
theorem prefix_append_cons_iff (h : c ∉ p) (s t : List Char) :
  p <+: s ++ c :: t ↔ p <+: s
  := by
  constructor
  · intro hp
    rcases List.prefix_or_prefix_of_prefix hp (List.prefix_append s (c :: t)) with hshort | hlong
    · exact hshort
    · obtain ⟨q, rfl⟩ := hlong
      rw [List.prefix_append_right_inj, List.prefix_cons_iff] at hp
      rcases hp with rfl | ⟨q, rfl, -⟩
      · rw [List.append_nil]
      · simp at h
  · intro hp
    exact hp.trans (List.prefix_append s _)

/-- A piece without a character lies before or behind each of its places. -/
theorem infix_append_cons_iff (h : c ∉ p) (s t : List Char) :
  p <:+: s ++ c :: t ↔ p <:+: s ∨ p <:+: t
  := by
  induction s with
  | nil =>
    rw [List.nil_append, List.infix_cons_iff, ← List.nil_append (c :: t),
      prefix_append_cons_iff h, List.prefix_nil, List.infix_nil]
  | cons d s ih =>
    rw [List.cons_append, List.infix_cons_iff, ih, ← or_assoc, ← List.cons_append,
      prefix_append_cons_iff h, ← List.infix_cons_iff]

/-- A piece that has a character only at its start lies before each place of the character, or
starts there or later. -/
theorem cons_infix_append_cons_iff (h : c ∉ p) (s t : List Char) :
  c :: p <:+: s ++ c :: t ↔ c :: p <:+: s ∨ c :: p <:+: c :: t
  := by
  induction s with
  | nil => simp
  | cons d s ih =>
    rw [List.cons_append, List.infix_cons_iff, ih, ← or_assoc, List.cons_prefix_cons,
      prefix_append_cons_iff h, ← List.cons_prefix_cons, ← List.infix_cons_iff]

theorem infix_cons_iff_of_not_mem (h : c ∉ p) (t : List Char) :
  p <:+: c :: t ↔ p <:+: t
  := by
  rw [← List.nil_append (c :: t), infix_append_cons_iff h, List.infix_nil, or_iff_right_iff_imp]
  rintro rfl
  exact List.nil_infix

theorem infix_concat_iff_of_not_mem (h : c ∉ p) (s : List Char) :
  p <:+: s ++ [c] ↔ p <:+: s
  := by
  rw [infix_append_cons_iff h, List.infix_nil, or_iff_left_iff_imp]
  rintro rfl
  exact List.nil_infix

/-! ### Lines -/

theorem dropReturn_concat (l : List Char) :
  dropReturn (l ++ ['\r']) = l
  := by
  rw [dropReturn, List.getLast?_concat, if_pos rfl, List.dropLast_concat]

/-- A carriage return that is dropped was the end of the line. -/
theorem dropReturn_eq_or (l : List Char) :
  dropReturn l = l ∨ l = dropReturn l ++ ['\r']
  := by
  rw [dropReturn]
  split
  · next h =>
    right
    exact (List.dropLast_append_getLast? '\r' h).symm
  · left
    rfl

end Text

namespace Source

/-! ### Markers -/

/-- Only the markers of decorators have line breaks. -/
theorem not_mem_marker {f : Feature} (h : f ≠ .decorator) :
  ∀ m ∈ f.markers, '\n' ∉ m.toList ∧ '\r' ∉ m.toList
  := by
  cases f with
  | decorator => exact absurd rfl h
  | _ => decide +kernel

theorem shows_iff_of_marked {f : Feature} (h : f ≠ .comprehension) {source : List Char} :
  shows source f = true ↔ ∃ m ∈ f.markers, m.toList <:+: '\n' :: source
  := by
  simp only [shows_of_ne_comprehension h, List.any_eq_true, Text.occursIn_iff]

/-- A sign after a carriage return and a line feed is one after a line feed. -/
theorem shows_decorator_iff {source : List Char} :
  shows source .decorator = true ↔ ['\n', '@'] <:+: '\n' :: source
  := by
  rw [shows_iff_of_marked (by decide)]
  constructor
  · rintro ⟨m, hm, hoccurs⟩
    rcases List.mem_pair.mp hm with rfl | rfl
    · exact hoccurs
    · exact (List.suffix_cons '\r' ['\n', '@']).isInfix.trans hoccurs
  · intro h
    exact ⟨"\n@", List.mem_cons_self, h⟩

/-- A marker that stands in a source stands before a line feed or behind it. -/
theorem shows_append_newline_of_marked {f : Feature} (h : f ≠ .comprehension)
    (a b : List Char) :
  shows (a ++ '\n' :: b) f = true ↔ shows a f = true ∨ shows b f = true
  := by
  by_cases hf : f = .decorator
  · subst hf
    rw [shows_decorator_iff, shows_decorator_iff, shows_decorator_iff, ← List.cons_append,
      Text.cons_infix_append_cons_iff (by decide)]
  · rw [shows_iff_of_marked h, shows_iff_of_marked h, shows_iff_of_marked h, ← exists_or]
    apply exists_congr
    intro m
    rw [← and_or_left]
    apply and_congr_right
    intro hm
    have hfree := (not_mem_marker hf m hm).1
    rw [← List.cons_append, Text.infix_append_cons_iff hfree,
      Text.infix_cons_iff_of_not_mem hfree b]

/-- No marker ends with a carriage return. -/
theorem shows_concat_return_of_marked {f : Feature} (h : f ≠ .comprehension)
    (source : List Char) :
  shows (source ++ ['\r']) f = true ↔ shows source f = true
  := by
  by_cases hf : f = .decorator
  · subst hf
    rw [shows_decorator_iff, shows_decorator_iff, ← List.cons_append,
      Text.infix_concat_iff_of_not_mem (by decide)]
  · rw [shows_iff_of_marked h, shows_iff_of_marked h]
    apply exists_congr
    intro m
    apply and_congr_right
    intro hm
    rw [← List.cons_append, Text.infix_concat_iff_of_not_mem (not_mem_marker hf m hm).2]

/-! ### Comprehensions -/

theorem holdsComprehension_dropReturn_iff {line : List Char} :
  HoldsComprehension (.ofList (Text.dropReturn line)) ↔ HoldsComprehension (.ofList line)
  := by
  constructor
  · intro h
    rcases Text.dropReturn_eq_or line with hline | hline
    · rwa [hline] at h
    · rw [hline]
      exact holdsComprehension_append h _
  · exact holdsComprehension_dropReturn

theorem holdsComprehension_concat_return {line : List Char} :
  HoldsComprehension (.ofList (line ++ ['\r'])) ↔ HoldsComprehension (.ofList line)
  := by
  rw [← holdsComprehension_dropReturn_iff, Text.dropReturn_concat]

theorem hasComprehension_of_not_mem {source : List Char} (h : '\n' ∉ source) :
  hasComprehension source = true ↔ HoldsComprehension (.ofList source)
  := by
  rw [hasComprehension_iff, Text.lines_of_not_mem h]
  simp

theorem hasComprehension_append_cons {first : List Char} (h : '\n' ∉ first)
    (rest : List Char) :
  hasComprehension (first ++ '\n' :: rest) = (hasComprehension first || hasComprehension rest)
  := by
  rw [Bool.eq_iff_iff, Bool.or_eq_true, hasComprehension_of_not_mem h, hasComprehension_iff,
    hasComprehension_iff, Text.lines_append_cons h, List.exists_mem_cons_iff,
    holdsComprehension_dropReturn_iff]

theorem hasComprehension_append_newline (a b : List Char) :
  hasComprehension (a ++ '\n' :: b) = (hasComprehension a || hasComprehension b)
  := by
  induction a using Text.line_induction with
  | line a ha => exact hasComprehension_append_cons ha b
  | cut first rest hfirst ih =>
    rw [List.append_assoc, List.cons_append, hasComprehension_append_cons hfirst, ih,
      hasComprehension_append_cons hfirst, Bool.or_assoc]

theorem hasComprehension_concat_return (source : List Char) :
  hasComprehension (source ++ ['\r']) = hasComprehension source
  := by
  induction source using Text.line_induction with
  | line source h =>
    have hline : '\n' ∉ source ++ ['\r'] := by simp [h]
    rw [Bool.eq_iff_iff, hasComprehension_of_not_mem hline, hasComprehension_of_not_mem h,
      holdsComprehension_concat_return]
  | cut first rest hfirst ih =>
    rw [List.append_assoc, List.cons_append, hasComprehension_append_cons hfirst, ih,
      hasComprehension_append_cons hfirst]

/-! ### Features -/

/-- A source that is cut at a line feed shows what one of its parts shows. -/
theorem shows_append_newline (a b : List Char) (f : Feature) :
  shows (a ++ '\n' :: b) f = (shows a f || shows b f)
  := by
  by_cases hf : f = .comprehension
  · subst hf
    exact hasComprehension_append_newline a b
  · rw [Bool.eq_iff_iff, Bool.or_eq_true]
    exact shows_append_newline_of_marked hf a b

theorem shows_concat_return (source : List Char) (f : Feature) :
  shows (source ++ ['\r']) f = shows source f
  := by
  by_cases hf : f = .comprehension
  · subst hf
    exact hasComprehension_concat_return source
  · rw [Bool.eq_iff_iff]
    exact shows_concat_return_of_marked hf source

theorem shows_dropReturn (line : List Char) (f : Feature) :
  shows (Text.dropReturn line) f = shows line f
  := by
  rcases Text.dropReturn_eq_or line with hline | hline
  · rw [hline]
  · conv_rhs => rw [hline, shows_concat_return]

/-- A source shows what its lines show. -/
theorem shows_eq_any_lines (source : List Char) (f : Feature) :
  shows source f = (Text.lines source).any (shows · f)
  := by
  induction source using Text.line_induction with
  | line source h => simp [Text.lines_of_not_mem h]
  | cut first rest hfirst ih =>
    rw [shows_append_newline, Text.lines_append_cons hfirst, List.any_cons, shows_dropReturn, ih]

end Source

namespace FeatureSet

/-- A source that is cut at a line break of either kind shows what one of its parts shows, and
the features of a source are those of its lines. -/
theorem ofSource_splits (f : Feature) :
  (∀ a b : String, (ofSource (a ++ "\n" ++ b)).has f = true
      ↔ (ofSource a).has f = true ∨ (ofSource b).has f = true)
    ∧ (∀ a b : String, (ofSource (a ++ "\r\n" ++ b)).has f = true
      ↔ (ofSource a).has f = true ∨ (ofSource b).has f = true)
    ∧ ∀ source : String, (ofSource source).has f = true
      ↔ ∃ line ∈ Text.lines source.toList, (ofSource (.ofList line)).has f = true
  := by
  refine ⟨?lineFeed, ?carriageReturn, ?lines⟩
  case lineFeed =>
    intro a b
    have hcut : (a ++ "\n" ++ b).toList = a.toList ++ '\n' :: b.toList := by simp
    rw [has_ofSource, has_ofSource, has_ofSource, hcut, Source.shows_append_newline,
      Bool.or_eq_true]
  case carriageReturn =>
    intro a b
    have hcut : (a ++ "\r\n" ++ b).toList = (a.toList ++ ['\r']) ++ '\n' :: b.toList := by simp
    rw [has_ofSource, has_ofSource, has_ofSource, hcut, Source.shows_append_newline,
      Source.shows_concat_return, Bool.or_eq_true]
  case lines =>
    intro source
    rw [has_ofSource, Source.shows_eq_any_lines, List.any_eq_true]
    simp only [has_ofSource, String.toList_ofList]

end FeatureSet

end CorpusAudit
