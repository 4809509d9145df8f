import CorpusAudit.Corpus.Reading
import CorpusAudit.Proofs.Json.Documents
import CorpusAudit.Proofs.Text

/-!
# The two layouts of a table

The rows of a table are the same whether they are written as an array or as lines, and
however the lines are laid out: they end in a line feed or in a carriage return and a line
feed, the last line is ended or not, and there are blank lines between them
(`IsLayout`).
-/

namespace CorpusAudit

open Text (Symbol encode isBlankByte)

/-! ### Lines -/

/-- How a line ends. -/
inductive LineEnd where
  | lineFeed
  | returnLineFeed
deriving DecidableEq, Repr

/-- The bytes of a line end before its line feed. -/
def LineEnd.before : LineEnd → Bytes
  | .lineFeed => []
  | .returnLineFeed => [0x0D]

/-- The bytes of a line end. -/
def LineEnd.bytes (e : LineEnd) : Bytes :=
  e.before ++ [0x0A]

theorem LineEnd.not_mem_before {line : Bytes} (h : 0x0A ∉ line) (e : LineEnd) :
  0x0A ∉ line ++ e.before
  := by
  intro hmem
  rcases List.mem_append.mp hmem with hmem | hmem
  · exact h hmem
  · cases e <;> simp [LineEnd.before] at hmem

/-- A line of blank bytes. -/
def IsBlankLine (line : Bytes) : Prop :=
  0x0A ∉ line ∧ line.all isBlankByte = true

/-- The ways to write texts one to a line: each line has its own end, which the last one
may go without, and there are blank lines anywhere. -/
inductive IsLayout : List String → Bytes → Prop where
  | lastBlank {line : Bytes} : IsBlankLine line → IsLayout [] line
  | last (t : String) : IsLayout [t] (encode t)
  | blank {line : Bytes} {ts : List String} {bytes : Bytes} (e : LineEnd) :
    IsBlankLine line → IsLayout ts bytes → IsLayout ts (line ++ e.bytes ++ bytes)
  | row {ts : List String} {bytes : Bytes} (t : String) (e : LineEnd) :
    IsLayout ts bytes → IsLayout (t :: ts) (encode t ++ e.bytes ++ bytes)

/-- The texts in one array. -/
def arrayText (ts : List String) : String :=
  "[" ++ ",".intercalate ts ++ "]"

namespace Corpus

/-- A text of one line that holds a value, with at most 126 lists and records inside each
other. -/
def IsRowText (t : String) : Prop :=
  0x0A ∉ encode t ∧ ∃ v, Json.ofBytes? (encode t) = some v ∧ v.isReadable = true ∧ v.depth ≤ 126

/-! ### The rows of lines -/

/-- The rows that stand on a line: none if it is blank. -/
def rowsOfLine (line : Bytes) : List (Option Value) :=
  if line.all isBlankByte then [] else [(Json.ofBytes? line).bind Decode.any]

theorem rowsOfLines_of_not_mem {line : Bytes} (h : 0x0A ∉ line) :
  rowsOfLines line = rowsOfLine line
  := by
  rw [rowsOfLines, List.splitOn_eq_singleton h, rowsOfLine]
  by_cases hblank : line.all isBlankByte = true <;> simp [hblank]

theorem rowsOfLines_append {line : Bytes} (h : 0x0A ∉ line) (bytes : Bytes) :
  rowsOfLines (line ++ 0x0A :: bytes) = rowsOfLine line ++ rowsOfLines bytes
  := by
  rw [rowsOfLines, List.splitOn_append_cons_self_of_not_mem h, rowsOfLine, rowsOfLines]
  by_cases hblank : line.all isBlankByte = true <;> simp [hblank]

/-- A document does not consist of blank bytes. -/
theorem not_blank_of_ofBytes? {t : String} {v : Value} (h : Json.ofBytes? (encode t) = some v) :
  (encode t).all isBlankByte = false
  := by
  apply Bool.eq_false_iff.mpr
  intro hblank
  rw [Json.ofBytes?, Text.symbols_encode] at h
  obtain ⟨w, ⟨rest, hw, -⟩, -⟩ := Json.read?_eq_some_iff.mp h
  have hnone : Json.value (t.toList.map some).length (t.toList.map some) = none := by
    cases hskip : Json.skipBlank (t.toList.map some) with
    | nil => exact Json.value_eq_none _ hskip (by simp) (by simp) rfl
    | cons c cs =>
      have hmem : c ∈ t.toList.map some := by
        apply (List.dropWhile_sublist Json.isBlank).subset
        rw [← Json.skipBlank, hskip]
        exact List.mem_cons_self
      have hc : Json.isBlank c = false := by
        have hhead := List.head?_dropWhile_not Json.isBlank (t.toList.map some)
        rw [← Json.skipBlank, hskip] at hhead
        exact hhead
      obtain ⟨c, hc', rfl⟩ := List.mem_map.mp hmem
      -- among the blank bytes only the form feed is not blank in a document
      have hfeed : c = '\x0c' := by
        rcases Text.eq_of_isBlankByte hblank hc' with rfl | rfl | rfl | rfl | rfl
        all_goals first | rfl | simp [Json.isBlank] at hc
      subst hfeed
      exact Json.value_eq_none _ hskip (by simp) (by simp) rfl
  rw [hnone] at hw
  simp at hw

/-- What a text holds as a row. -/
def rowOfText (t : String) : Option Value :=
  (Json.ofBytes? (encode t)).bind Decode.any

/-- A carriage return at the end of a line does no harm to the document on it. -/
theorem ofBytes?_line {t : String} {v : Value} (h : Json.ofBytes? (encode t) = some v)
    (e : LineEnd) :
  Json.ofBytes? (encode t ++ e.before) = some v
  := by
  cases e with
  | lineFeed => rwa [LineEnd.before, List.append_nil]
  | returnLineFeed =>
    have hreturn : encode t ++ [0x0D] = encode (t ++ "\r") := by
      rw [Text.encode_append]
      rfl
    rw [Json.ofBytes?, Text.symbols_encode] at h
    obtain ⟨w, hw, rfl⟩ := Json.read?_eq_some_iff.mp h
    rw [LineEnd.before, hreturn, Json.ofBytes?, Text.symbols_encode]
    apply Json.read?_eq_some_iff.mpr
    refine ⟨w, ?_, rfl⟩
    rw [String.toList_append, List.map_append]
    exact hw.concat_return

theorem rowsOfLine_text {t : String} {v : Value} (h : Json.ofBytes? (encode t) = some v)
    (e : LineEnd) :
  rowsOfLine (encode t ++ e.before) = [rowOfText t]
  := by
  rw [rowsOfLine, if_neg, ofBytes?_line h, rowOfText, h]
  simp [List.all_append, not_blank_of_ofBytes? h]

theorem rowsOfLine_blank {line : Bytes} (h : IsBlankLine line) (e : LineEnd) :
  rowsOfLine (line ++ e.before) = []
  := by
  rw [rowsOfLine, if_pos]
  rw [List.all_append, h.2, Bool.true_and]
  cases e <;> decide

/-- The rows of lines are those of the texts that are laid out. -/
theorem rowsOfLines_of_isLayout {ts : List String} {bytes : Bytes}
    (hts : ∀ t ∈ ts, 0x0A ∉ encode t ∧ ∃ v, Json.ofBytes? (encode t) = some v)
    (h : IsLayout ts bytes) :
  rowsOfLines bytes = ts.map rowOfText
  := by
  induction h with
  | @lastBlank line hline =>
    have := rowsOfLine_blank hline .lineFeed
    rw [LineEnd.before, List.append_nil] at this
    rw [rowsOfLines_of_not_mem hline.1, this, List.map_nil]
  | last t =>
    obtain ⟨hfeed, v, hv⟩ := hts t (by simp)
    have := rowsOfLine_text hv .lineFeed
    rw [LineEnd.before, List.append_nil] at this
    rw [rowsOfLines_of_not_mem hfeed, this, List.map_singleton]
  | @blank line ts bytes e hline _ ih =>
    rw [LineEnd.bytes, ← List.append_assoc, List.append_assoc, List.singleton_append,
      rowsOfLines_append (LineEnd.not_mem_before hline.1 e), rowsOfLine_blank hline, ih hts,
      List.nil_append]
  | @row ts bytes t e _ ih =>
    obtain ⟨hfeed, v, hv⟩ := hts t (by simp)
    rw [LineEnd.bytes, ← List.append_assoc, List.append_assoc, List.singleton_append,
      rowsOfLines_append (LineEnd.not_mem_before hfeed e), rowsOfLine_text hv,
      ih fun t ht => hts t (List.mem_cons_of_mem _ ht), List.map_cons, List.singleton_append]

/-! ### The rows of an array -/

theorem toList_arrayText (ts : List String) :
  (arrayText ts).toList.map some
    = some '[' :: (Json.separate (ts.map fun t => t.toList.map some) ++ [some ']'])
  := by
  have hcommas : ((",".intercalate ts).toList.map some : List Symbol)
      = Json.separate (ts.map fun t => t.toList.map some) := by
    rw [String.toList_intercalate, Json.separate]
    induction ts with
    | nil => rfl
    | cons t ts ih =>
      cases ts with
      | nil => simp
      | cons u ts =>
        simp only [List.map_cons, List.intercalate_cons_cons, List.map_append] at ih ⊢
        rw [ih]
        rfl
  rw [arrayText, String.toList_append, String.toList_append, List.map_append, List.map_append,
    hcommas]
  rfl

/-- An array holds the values that its rows hold. -/
theorem ofBytes?_arrayText {ts : List String} (hts : ∀ t ∈ ts, IsRowText t) :
  ∃ vs, Json.ofBytes? (encode (arrayText ts)) = some (.list vs)
    ∧ List.Forall₂ (fun t v => Json.ofBytes? (encode t) = some v ∧ v.isReadable = true) ts vs
  := by
  have hrows : ∃ vs, List.Forall₂ (fun t v => Json.ofBytes? (encode t) = some v
      ∧ v.isReadable = true ∧ v.depth ≤ 126) ts vs := by
    induction ts with
    | nil => exact ⟨[], .nil⟩
    | cons t ts ih =>
      obtain ⟨vs, hvs⟩ := ih fun t ht => hts t (List.mem_cons_of_mem _ ht)
      obtain ⟨-, v, hv⟩ := hts t List.mem_cons_self
      exact ⟨v :: vs, .cons hv hvs⟩
  obtain ⟨vs, hvs⟩ := hrows
  refine ⟨vs, ?_, hvs.imp fun _ _ h => ⟨h.1, h.2.1⟩⟩
  have hdocuments : List.Forall₂ Json.IsDocument (ts.map fun t => t.toList.map some) vs := by
    rw [List.forall₂_map_left_iff]
    refine hvs.imp ?_
    rintro t v ⟨hv, hreadable, -⟩
    rw [Json.ofBytes?, Text.symbols_encode] at hv
    obtain ⟨w, hw, rfl⟩ := Json.read?_eq_some_iff.mp hv
    rw [Value.limit_of_isReadable hreadable]
    exact hw
  rw [Json.ofBytes?, Text.symbols_encode, toList_arrayText]
  apply Json.read?_eq_some_iff.mpr
  refine ⟨.list vs, Json.isDocument_list hdocuments, ?_⟩
  -- the array itself is the one more list that the bound on the nesting allows
  apply Value.limit_of_depth_le
  apply Value.depth_list_le_iff.mpr
  intro v hv
  obtain ⟨i, hi, rfl⟩ := List.mem_iff_getElem.mp hv
  exact (hvs.get (hvs.length_eq ▸ hi) hi).2.2

/-- A table is the same corpus, or the same fault, whether its rows are written as one array
or one to a line, and however the lines are laid out. -/
theorem ofLines_eq_ofArray {ts : List String} {bytes : Bytes} (hts : ∀ t ∈ ts, IsRowText t)
    (hlayout : IsLayout ts bytes) (source : Path) (limit : Float) :
  ofLines limit bytes = ofArray source limit (encode (arrayText ts))
  := by
  obtain ⟨vs, harray, hvs⟩ := ofBytes?_arrayText hts
  have hreadable : ∀ v ∈ vs, v.isReadable = true := by
    intro v hv
    obtain ⟨i, hi, rfl⟩ := List.mem_iff_getElem.mp hv
    exact (hvs.get (hvs.length_eq ▸ hi) hi).2
  have hrows : ts.map rowOfText = (vs.map Value.settle).map some := by
    apply List.ext_getElem
    · simp [hvs.length_eq]
    · intro i hi hj
      obtain ⟨hv, hread⟩ := hvs.get (by simpa using hi) (by simpa using hj)
      simp only [List.get_eq_getElem] at hv hread
      simp [rowOfText, hv, Decode.any, hread]
  have hlines := rowsOfLines_of_isLayout (fun t ht => ?_) hlayout
  · rw [ofLines, hlines, hrows, ofArray, harray, Option.bind_some, Decode.any_list hreadable]
  · obtain ⟨hfeed, v, hv, -⟩ := hts t ht
    exact ⟨hfeed, v, hv⟩

/-- Two rows, one of them no object, as an array and on lines with a blank line between
them. -/
theorem ofLines_eq_ofArray_two_rows :
  (∀ t ∈ ["{}", "7"], IsRowText t)
    ∧ IsLayout ["{}", "7"] (encode "{}" ++ [0x0D, 0x0A] ++ ([0x0C, 0x20] ++ [0x0A] ++ encode "7"))
    ∧ ofLines 0 (encode "{}" ++ [0x0D, 0x0A] ++ ([0x0C, 0x20] ++ [0x0A] ++ encode "7"))
      = ofArray ⟨"rows.json"⟩ 0 (encode (arrayText ["{}", "7"]))
  := by
  have hts : ∀ t ∈ ["{}", "7"], IsRowText t := by
    intro t ht
    simp only [List.mem_cons, List.not_mem_nil, or_false] at ht
    rcases ht with rfl | rfl
    · refine ⟨by decide +kernel, .record [], ?_, rfl, by decide⟩
      rw [Json.ofBytes?, Text.symbols_encode]
      rfl
    · refine ⟨by decide +kernel, .int 7, ?_, rfl, by decide⟩
      rw [Json.ofBytes?, Text.symbols_encode]
      rfl
  have hlayout : IsLayout ["{}", "7"]
      (encode "{}" ++ [0x0D, 0x0A] ++ ([0x0C, 0x20] ++ [0x0A] ++ encode "7")) := by
    apply IsLayout.row "{}" .returnLineFeed
    apply IsLayout.blank .lineFeed
    · exact ⟨by decide, by decide⟩
    · exact IsLayout.last "7"
  exact ⟨hts, hlayout, ofLines_eq_ofArray hts hlayout _ 0⟩

end Corpus

end CorpusAudit
