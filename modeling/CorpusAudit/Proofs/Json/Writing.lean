import CorpusAudit.Proofs.Json.Documents
import CorpusAudit.Proofs.Json.Numerals

/-!
# Documents that are written and read

Both ways of writing documents are one way (`lay`) with other blanks between the parts,
and what is written is read back (`value_lay`): texts, names and structure unchanged,
numbers as the values of their numerals (`reread`).  A compact document has no control
characters, so it stays on its line.
-/

namespace CorpusAudit.Json

open Text (Symbol)

/-! ### Texts -/

theorem hexDigit_spec {n : Nat} (h : n < 16) :
  hexValue? (hexDigit n) = some n ∧ hexDigit n ≠ '"' ∧ hexDigit n ≠ '\\'
  := by
  revert h n
  decide

theorem unit?_control {n : Nat} (h : n < 0x20) :
  unit? [some '0', some '0', some (hexDigit (n / 16)), some (hexDigit (n % 16))] = some n
  := by
  revert h n
  decide

/-- A character is read back from what stands for it between quotes: it does not end the
text, and it is one mark. -/
structure IsEscape (c : Char) (cs : List Char) : Prop where
  untilQuote : ∀ rest, untilQuote (cs.map some ++ rest)
    = (untilQuote rest).map fun p => (cs.map some ++ p.1, p.2)
  marks : ∃ m, (∀ rest, marks? (cs.map some ++ rest) = (marks? rest).map (m :: ·))
    ∧ ∀ ms, join (m :: ms) = some c :: join ms

theorem isEscape_self {c : Char} (hquote : c ≠ '"') (hslash : c ≠ '\\')
    (hcontrol : 0x20 ≤ c.toNat) :
  IsEscape c [c]
  where
    untilQuote rest := untilQuote_of_ne (by simpa using hquote) (by simpa using hslash) rest
    marks := by
      refine ⟨.symbol (some c), ?_, fun _ => rfl⟩
      intro rest
      have hc : isControl (some c) = false := by simpa [isControl] using hcontrol
      rw [List.map_singleton, List.singleton_append, marks?.eq_def]
      simp only [Option.some.injEq, hslash, if_false, hc, Bool.false_eq_true]
      cases marks? rest <;> rfl

theorem isEscape_letter {c d : Char} (h : escapedAs? d = some c) :
  IsEscape c ['\\', d]
  where
    untilQuote rest := untilQuote_escape (some d) rest
    marks := by
      refine ⟨.symbol (some c), ?_, fun _ => rfl⟩
      intro rest
      have hd : d ≠ 'u' := by
        rintro rfl
        exact absurd h (by simp [escapedAs?])
      have hmarks : marks? (some '\\' :: some d :: rest) = (do
          let c ← escapedAs? d
          let more ← marks? rest
          some (.symbol (some c) :: more)) := by
        rw [marks?.eq_def]
        simp only [if_true]
        split
        · next heq => simp_all
        · next heq =>
          simp only [List.cons.injEq, Option.some.injEq] at heq
          rw [heq.1, heq.2]
        · next hno => exact absurd rfl (hno d rest)
      rw [List.map_cons, List.map_singleton, List.cons_append, List.singleton_append, hmarks, h]
      cases marks? rest <;> rfl

theorem isEscape_unit {c : Char} (h : c.toNat < 0x20) :
  IsEscape c ['\\', 'u', '0', '0', hexDigit (c.toNat / 16), hexDigit (c.toNat % 16)]
  where
    untilQuote rest := by
      obtain ⟨-, hq, hs⟩ := hexDigit_spec (n := c.toNat / 16) (by omega)
      obtain ⟨-, hq', hs'⟩ := hexDigit_spec (n := c.toNat % 16) (by omega)
      have hplain {d : Char} (hq : d ≠ '"') (hs : d ≠ '\\') (rest : List Symbol) :=
        untilQuote_of_ne (c := some d) (by simpa using hq) (by simpa using hs) rest
      simp only [List.map_cons, List.map_nil, List.cons_append, List.nil_append,
        untilQuote_escape, hplain (d := '0') (by decide) (by decide), hplain hq hs, hplain hq' hs',
        Option.map_map]
      rfl
    marks := by
      have hunit := unit?_control h
      refine ⟨.unit c.toNat, ?_, ?_⟩
      · intro rest
        simp only [List.map_cons, List.map_nil, List.cons_append, List.nil_append]
        rw [marks?.eq_def]
        simp only [if_true, hunit, Option.bind_eq_bind, Option.bind_some]
        cases marks? rest <;> rfl
      · intro ms
        have hpartner : partner? c.toNat ms = none := by
          have hpair (low : Nat) : isPair c.toNat low = false := by
            simp only [isPair, Bool.and_eq_false_iff, decide_eq_false_iff_not]
            omega
          unfold partner?
          split
          · rw [hpair, if_neg (by simp)]
          · rfl
        have hsymbol : unitSymbol c.toNat = some c := by
          rw [unitSymbol, if_pos, Char.ofNat_toNat]
          simp only [Bool.or_eq_true, decide_eq_true_eq]
          omega
        rw [join, hpartner, hsymbol]

/-- What stands for a character between quotes: a backslash and a letter, a backslash and a
number, or the character itself. -/
theorem escape_cases (c : Char) :
  (∃ d, escape c = ['\\', d] ∧ escapedAs? d = some c ∧ 0x20 ≤ d.toNat)
    ∨ (escape c = ['\\', 'u', '0', '0', hexDigit (c.toNat / 16), hexDigit (c.toNat % 16)]
      ∧ c.toNat < 0x20)
    ∨ (escape c = [c] ∧ c ≠ '"' ∧ c ≠ '\\' ∧ 0x20 ≤ c.toNat)
  := by
  have hletter {c d : Char} {cs : List Char} {p : Prop} (h : escapedAs? d = some c)
      (hd : 0x20 ≤ d.toNat) (hcs : cs = ['\\', d]) :
      (∃ d, cs = ['\\', d] ∧ escapedAs? d = some c ∧ 0x20 ≤ d.toNat) ∨ p :=
    Or.inl ⟨d, hcs, h, hd⟩
  by_cases hquote : c = '"'
  · subst hquote
    exact hletter rfl (by decide) rfl
  by_cases hslash : c = '\\'
  · subst hslash
    exact hletter rfl (by decide) rfl
  by_cases hfeed : c = '\n'
  · subst hfeed
    exact hletter rfl (by decide) rfl
  by_cases hreturn : c = '\r'
  · subst hreturn
    exact hletter rfl (by decide) rfl
  by_cases htab : c = '\t'
  · subst htab
    exact hletter rfl (by decide) rfl
  by_cases hback : c = '\x08'
  · subst hback
    exact hletter rfl (by decide) rfl
  by_cases hpage : c = '\x0c'
  · subst hpage
    exact hletter rfl (by decide) rfl
  right
  simp only [escape, hquote, hslash, hfeed, hreturn, htab, hback, hpage, if_false]
  by_cases hcontrol : c.toNat < 0x20
  · rw [if_pos hcontrol]
    exact Or.inl ⟨rfl, hcontrol⟩
  · rw [if_neg hcontrol]
    exact Or.inr ⟨rfl, hquote, hslash, Nat.le_of_not_lt hcontrol⟩

theorem isEscape_escape (c : Char) :
  IsEscape c (escape c)
  := by
  rcases escape_cases c with ⟨d, heq, hd, -⟩ | ⟨heq, hc⟩ | ⟨heq, hquote, hslash, hc⟩
  · rw [heq]
    exact isEscape_letter hd
  · rw [heq]
    exact isEscape_unit hc
  · rw [heq]
    exact isEscape_self hquote hslash hc

/-- A text is read back from between its quotes. -/
theorem text_quote (cs : List Char) (rest : List Symbol) :
  text ((cs.flatMap escape).map some ++ some '"' :: rest) = some (cs.map some, rest)
  := by
  have huntil : untilQuote ((cs.flatMap escape).map some ++ some '"' :: rest)
      = some ((cs.flatMap escape).map some, rest) := by
    induction cs with
    | nil => exact untilQuote_quote rest
    | cons c cs ih =>
      rw [List.flatMap_cons, List.map_append, List.append_assoc, (isEscape_escape c).untilQuote, ih]
      rfl
  have hmarks : ∃ ms, marks? ((cs.flatMap escape).map some) = some ms ∧ join ms = cs.map some := by
    clear huntil
    induction cs with
    | nil => exact ⟨[], rfl, rfl⟩
    | cons c cs ih =>
      obtain ⟨ms, hms, hjoin⟩ := ih
      obtain ⟨m, hm, hc⟩ := (isEscape_escape c).marks
      refine ⟨m :: ms, ?_, ?_⟩
      · rw [List.flatMap_cons, List.map_append, hm, hms]
        rfl
      · rw [hc, hjoin, List.map_cons]
  obtain ⟨ms, hms, hjoin⟩ := hmarks
  simp [text, huntil, hms, hjoin]

theorem scalar_quote (t : String) (rest : List Symbol) :
  scalar ((quote t).map some ++ rest) = some (.text t, rest)
  := by
  have htext := text_quote t.toList rest
  simp only [quote, List.cons_append, List.map_cons, List.map_append, List.append_assoc,
    List.map_nil, List.nil_append]
  simp [scalar, htext, textValue, Text.whole?_map_some]

/-! ### Two ways of writing documents -/

/-- The blanks between the parts of a document: before an item or a field of a level, and
after a colon. -/
structure Spacing where
  gap : Nat → List Char
  space : List Char
  gap_isBlank : ∀ level, ∀ c ∈ gap level, isBlank (some c) = true
  space_isBlank : ∀ c ∈ space, isBlank (some c) = true

/-- No blanks. -/
def Spacing.none : Spacing where
  gap _ := []
  space := []
  gap_isBlank := by simp
  space_isBlank := by simp

/-- A line for every item and field, two spaces a level. -/
def Spacing.indented : Spacing where
  gap := newline
  space := [' ']
  gap_isBlank level c hc := by
    rcases List.mem_cons.mp hc with rfl | hc
    · rfl
    · rw [List.eq_of_mem_replicate hc]
      rfl
  space_isBlank := by simp [isBlank]

mutual

/-- A document with the given blanks. -/
def lay (s : Spacing) (level : Nat) : Value → List Char
  | .list [] => ['[', ']']
  | .list (v :: vs) => '[' :: s.gap (level + 1) ++ lay s (level + 1) v ++ layItems s level vs
  | .record [] => ['{', '}']
  | .record ((n, v) :: fs) =>
    '{' :: s.gap (level + 1) ++ quote n ++ ':' :: s.space ++ lay s (level + 1) v
      ++ layFields s level fs
  | .null => ['n', 'u', 'l', 'l']
  | .bool true => ['t', 'r', 'u', 'e']
  | .bool false => ['f', 'a', 'l', 's', 'e']
  | .int n => intText n
  | .float x => floatText x
  | .text t => quote t
  | .unreadable => ['n', 'u', 'l', 'l']
termination_by structural v => v

/-- The items of a list after the first, and its closing bracket. -/
def layItems (s : Spacing) (level : Nat) : List Value → List Char
  | [] => s.gap level ++ [']']
  | v :: vs => ',' :: s.gap (level + 1) ++ lay s (level + 1) v ++ layItems s level vs
termination_by structural vs => vs

/-- The fields of a record after the first, and its closing brace. -/
def layFields (s : Spacing) (level : Nat) : List (String × Value) → List Char
  | [] => s.gap level ++ ['}']
  | (n, v) :: fs =>
    ',' :: s.gap (level + 1) ++ quote n ++ ':' :: s.space ++ lay s (level + 1) v
      ++ layFields s level fs
termination_by structural fs => fs

end

mutual

theorem compact_eq_lay : ∀ (v : Value) (level : Nat), compact v = lay .none level v
  | .list [], _ => rfl
  | .list (v :: vs), level => by
    simp [compact, lay, Spacing.none, compact_eq_lay v (level + 1), compactItems_eq_lay vs level]
  | .record [], _ => rfl
  | .record ((n, v) :: fs), level => by
    simp [compact, lay, Spacing.none, compact_eq_lay v (level + 1), compactFields_eq_lay fs level]
  | .null, _ | .bool true, _ | .bool false, _ | .int _, _ | .float _, _ | .text _, _
  | .unreadable, _ => rfl

theorem compactItems_eq_lay :
    ∀ (vs : List Value) (level : Nat), compactItems vs = layItems .none level vs
  | [], _ => rfl
  | v :: vs, level => by
    simp [compactItems, layItems, Spacing.none, compact_eq_lay v (level + 1),
      compactItems_eq_lay vs level]

theorem compactFields_eq_lay :
    ∀ (fs : List (String × Value)) (level : Nat), compactFields fs = layFields .none level fs
  | [], _ => rfl
  | (n, v) :: fs, level => by
    simp [compactFields, layFields, Spacing.none, compact_eq_lay v (level + 1),
      compactFields_eq_lay fs level]

end

mutual

theorem pretty_eq_lay : ∀ (v : Value) (level : Nat), pretty level v = lay .indented level v
  | .list [], _ => rfl
  | .list (v :: vs), level => by
    simp [pretty, lay, Spacing.indented, pretty_eq_lay v (level + 1), prettyItems_eq_lay vs level]
  | .record [], _ => rfl
  | .record ((n, v) :: fs), level => by
    simp [pretty, lay, Spacing.indented, pretty_eq_lay v (level + 1), prettyFields_eq_lay fs level]
  | .null, _ | .bool true, _ | .bool false, _ | .int _, _ | .float _, _ | .text _, _
  | .unreadable, _ => rfl

theorem prettyItems_eq_lay :
    ∀ (vs : List Value) (level : Nat), prettyItems level vs = layItems .indented level vs
  | [], _ => rfl
  | v :: vs, level => by
    simp [prettyItems, layItems, Spacing.indented, pretty_eq_lay v (level + 1),
      prettyItems_eq_lay vs level]

theorem prettyFields_eq_lay :
    ∀ (fs : List (String × Value)) (level : Nat),
      prettyFields level fs = layFields .indented level fs
  | [], _ => rfl
  | (n, v) :: fs, level => by
    simp [prettyFields, layFields, Spacing.indented, pretty_eq_lay v (level + 1),
      prettyFields_eq_lay fs level]

end

/-! ### Reading what is written -/

mutual

/-- What is read where a value was written: numbers are the values of their numerals, and
what denotes no value is null. -/
def reread : Value → Value
  | .null => .null
  | .bool b => .bool b
  | .int n => (Numeral.ofInt n).value?.getD .unreadable
  | .float x => if x.isFinite then (Numeral.ofFloat x).value?.getD .unreadable else .null
  | .text t => .text t
  | .list vs => .list (rereadItems vs)
  | .record fs => .record (rereadFields fs)
  | .unreadable => .null
termination_by structural v => v

/-- What is read where the values of a list were written. -/
def rereadItems : List Value → List Value
  | [] => []
  | v :: vs => reread v :: rereadItems vs
termination_by structural vs => vs

/-- What is read where the fields of a record were written. -/
def rereadFields : List (String × Value) → List (String × Value)
  | [] => []
  | (n, v) :: fs => (n, reread v) :: rereadFields fs
termination_by structural fs => fs

end

theorem rereadItems_eq_map (vs : List Value) :
  rereadItems vs = vs.map reread
  := by
  induction vs with
  | nil => rfl
  | cons v vs ih => rw [rereadItems, ih, List.map_cons]

theorem rereadFields_eq_map (fs : List (String × Value)) :
  rereadFields fs = fs.map fun f => (f.1, reread f.2)
  := by
  induction fs with
  | nil => rfl
  | cons f fs ih => rw [rereadFields, ih, List.map_cons]

theorem skipBlank_gap {l : List Char} (h : ∀ c ∈ l, isBlank (some c) = true) (cs : List Symbol) :
  skipBlank (l.map some ++ cs) = skipBlank cs
  := by
  apply List.dropWhile_append_of_pos
  intro c hc
  obtain ⟨c, hc', rfl⟩ := List.mem_map.mp hc
  exact h c hc'

theorem value_gap (fuel : Nat) {l : List Char} (h : ∀ c ∈ l, isBlank (some c) = true)
    (cs : List Symbol) :
  value fuel (l.map some ++ cs) = value fuel cs
  := by
  rw [← value_skipBlank, skipBlank_gap h, value_skipBlank]

/-- Blanks do not go on with a number. -/
theorem stops_gap {l : List Char} (h : ∀ c ∈ l, isBlank (some c) = true) {cs : List Symbol}
    (hcs : Stops cs) :
  Stops (l.map some ++ cs)
  := by
  cases l with
  | nil => exact hcs
  | cons c l =>
    have hc := h c List.mem_cons_self
    simp only [isBlank, Bool.or_eq_true, decide_eq_true_eq] at hc
    apply stops_cons
    rcases hc with ((rfl | rfl) | rfl) | rfl <;> decide

theorem stops_layItems (s : Spacing) (level : Nat) (vs : List Value) (rest : List Symbol) :
  Stops ((layItems s level vs).map some ++ rest)
  := by
  cases vs with
  | nil =>
    rw [layItems, List.map_append, List.append_assoc]
    exact stops_gap (s.gap_isBlank level) (stops_cons (by decide) _)
  | cons v vs => exact stops_cons (c := ',') (by decide) _

theorem stops_layFields (s : Spacing) (level : Nat) (fs : List (String × Value))
    (rest : List Symbol) :
  Stops ((layFields s level fs).map some ++ rest)
  := by
  cases fs with
  | nil =>
    rw [layFields, List.map_append, List.append_assoc]
    exact stops_gap (s.gap_isBlank level) (stops_cons (by decide) _)
  | cons f fs => exact stops_cons (c := ',') (by decide) _

/-- What is neither a list nor a record does not start with a blank. -/
theorem value_of_scalar_text {cs rest : List Symbol} {v : Value} (h : scalar cs = some (v, rest))
    (fuel : Nat) :
  value fuel cs = some (v, rest)
  := by
  have hskip : skipBlank cs = cs := by
    cases cs with
    | nil => rfl
    | cons c cs =>
      apply List.dropWhile_cons_of_neg
      intro hc
      cases c with
      | none => exact absurd hc (by decide)
      | some c =>
        simp only [isBlank, Bool.or_eq_true, decide_eq_true_eq] at hc
        have hnone : scalar (some c :: cs) = none := by
          rcases hc with ((rfl | rfl) | rfl) | rfl <;> rfl
        simp [hnone] at h
  apply value_of_scalar
  rw [hskip, h]

theorem value_intText (n : Int) (fuel : Nat) {rest : List Symbol} (hrest : Stops rest) :
  value fuel ((intText n).map some ++ rest) = some (reread (.int n), rest)
  := by
  rw [intText_eq]
  exact value_of_scalar_text (scalar_text (Numeral.wellFormed_ofInt n) hrest) fuel

theorem value_floatText (x : Float) (fuel : Nat) {rest : List Symbol} (hrest : Stops rest) :
  value fuel ((floatText x).map some ++ rest) = some (reread (.float x), rest)
  := by
  by_cases hx : x.isFinite = true
  · rw [floatText_eq hx, reread, if_pos hx]
    exact value_of_scalar_text (scalar_text (Numeral.wellFormed_ofFloat x) hrest) fuel
  · rw [floatText, if_neg hx, reread, if_neg hx]
    exact value_of_scalar_text rfl fuel

/-- A field is read if its value is. -/
theorem field_quote {fuel : Nat} {s : Spacing} (n : String) {cs rest : List Symbol} {v : Value}
    (level : Nat) (h : value fuel cs = some (v, rest)) :
  field (value fuel) ((s.gap level).map some ++ ((quote n).map some
      ++ (some ':' :: (s.space.map some ++ cs))))
    = some ((n.toList.map some, v), rest)
  := by
  have htext := text_quote n.toList (some ':' :: (s.space.map some ++ cs))
  have hquote : skipBlank ((s.gap level).map some ++ ((quote n).map some
      ++ (some ':' :: (s.space.map some ++ cs))))
      = some '"' :: ((n.toList.flatMap escape).map some
        ++ some '"' :: (some ':' :: (s.space.map some ++ cs))) := by
    rw [skipBlank_gap (s.gap_isBlank level)]
    simp [quote, skipBlank, isBlank]
  have hcolon : skipBlank (some ':' :: (s.space.map some ++ cs))
      = some ':' :: (s.space.map some ++ cs) := rfl
  simp [field, hquote, htext, hcolon, value_gap fuel s.space_isBlank, h]

theorem recordValue_names (fs : List (String × Value)) :
  recordValue (fs.map fun f => (f.1.toList.map some, f.2)) = .record fs
  := by
  have hnames : (fs.map fun f => (f.1.toList.map some, f.2)).mapM
      (fun f => (Text.whole? f.1).map fun name => (name, f.2)) = some fs := by
    induction fs with
    | nil => rfl
    | cons f fs ih => simp [ih, Text.whole?_map_some]
  rw [recordValue, hnames]

mutual

/-- Every document is read back, however it is written. -/
theorem value_lay (s : Spacing) :
    ∀ (v : Value) (level fuel : Nat) {rest : List Symbol},
      (lay s level v).length ≤ fuel → Stops rest →
        value fuel ((lay s level v).map some ++ rest) = some (reread v, rest)
  | .null, _, fuel, _, _, _ => value_of_scalar_text rfl fuel
  | .bool true, _, fuel, _, _, _ => value_of_scalar_text rfl fuel
  | .bool false, _, fuel, _, _, _ => value_of_scalar_text rfl fuel
  | .unreadable, _, fuel, _, _, _ => value_of_scalar_text rfl fuel
  | .int n, _, fuel, _, _, hrest => value_intText n fuel hrest
  | .float x, _, fuel, _, _, hrest => value_floatText x fuel hrest
  | .text t, _, fuel, rest, _, _ => value_of_scalar_text (scalar_quote t rest) fuel
  | .list [], _, fuel, rest, hfuel, _ => by
    obtain ⟨fuel, rfl⟩ : ∃ n, fuel = n + 1 := ⟨fuel - 1, by simp [lay] at hfuel; omega⟩
    rfl
  | .record [], _, fuel, rest, hfuel, _ => by
    obtain ⟨fuel, rfl⟩ : ∃ n, fuel = n + 1 := ⟨fuel - 1, by simp [lay] at hfuel; omega⟩
    rfl
  | .list (v :: vs), level, fuel, rest, hfuel, _ => by
    simp only [lay, List.cons_append, List.length_cons, List.length_append] at hfuel
    obtain ⟨fuel, rfl⟩ : ∃ n, fuel = n + 1 := ⟨fuel - 1, by omega⟩
    have hv := value_lay s v (level + 1) fuel (by omega) (stops_layItems s level vs rest)
    rw [← value_gap fuel (s.gap_isBlank (level + 1))] at hv
    have hitems := enclosed_of_separated (opens_value fuel)
      (separated_layItems s vs level fuel fuel (by omega) (by omega) hv)
    rw [lay, List.cons_append, List.cons_append, List.map_cons, List.map_append, List.map_append,
      List.cons_append, value_list rfl, List.append_assoc, List.append_assoc, hitems]
    rfl
  | .record ((n, v) :: fs), level, fuel, rest, hfuel, _ => by
    simp only [lay, List.cons_append, List.length_cons, List.length_append] at hfuel
    obtain ⟨fuel, rfl⟩ : ∃ n, fuel = n + 1 := ⟨fuel - 1, by omega⟩
    have hv := value_lay s v (level + 1) fuel (by omega) (stops_layFields s level fs rest)
    have hfields := enclosed_of_separated (opens_field fuel)
      (separated_layFields s fs level fuel fuel (by omega) (by omega)
        (field_quote (s := s) n (level + 1) hv))
    rw [lay]
    simp only [List.cons_append, List.map_cons, List.map_append, List.append_assoc]
    rw [value_record rfl, hfields]
    simp only [Option.map_some, recordValue_names]
    rfl

/-- The items of a list are read back, the first having been read. -/
theorem separated_layItems (s : Spacing) :
    ∀ (vs : List Value) (level fuel steps : Nat) {cs rest : List Symbol} {v : Value},
      (layItems s level vs).length ≤ fuel → (layItems s level vs).length ≤ steps →
        value fuel cs = some (v, (layItems s level vs).map some ++ rest) →
          separated (value fuel) ']' steps cs = some (v :: rereadItems vs, rest)
  | [], level, fuel, steps, cs, rest, v, _, hsteps, h => by
    simp only [layItems, List.length_append, List.length_cons] at hsteps
    obtain ⟨steps, rfl⟩ : ∃ n, steps = n + 1 := ⟨steps - 1, by omega⟩
    have hclose : skipBlank ((layItems s level []).map some ++ rest) = some ']' :: rest := by
      rw [layItems, List.map_append, List.append_assoc, skipBlank_gap (s.gap_isBlank level)]
      rfl
    simp [separated, h, hclose, rereadItems]
  | w :: vs, level, fuel, steps, cs, rest, v, hfuel, hsteps, h => by
    simp only [layItems, List.cons_append, List.length_cons, List.length_append] at hfuel hsteps
    obtain ⟨steps, rfl⟩ : ∃ n, steps = n + 1 := ⟨steps - 1, by omega⟩
    have hw := value_lay s w (level + 1) fuel (by omega) (stops_layItems s level vs rest)
    rw [← value_gap fuel (s.gap_isBlank (level + 1))] at hw
    have hvs := separated_layItems s vs level fuel steps (by omega) (by omega) hw
    have hcomma : skipBlank ((layItems s level (w :: vs)).map some ++ rest)
        = some ',' :: ((s.gap (level + 1)).map some ++ ((lay s (level + 1) w).map some
          ++ ((layItems s level vs).map some ++ rest))) := by
      simp [layItems, skipBlank, isBlank]
    simp [separated, h, hcomma, hvs, rereadItems]

/-- The fields of a record are read back, the first having been read. -/
theorem separated_layFields (s : Spacing) :
    ∀ (fs : List (String × Value)) (level fuel steps : Nat) {cs rest : List Symbol}
      {n : String} {v : Value},
      (layFields s level fs).length ≤ fuel → (layFields s level fs).length ≤ steps →
        field (value fuel) cs
            = some ((n.toList.map some, v), (layFields s level fs).map some ++ rest) →
          separated (field (value fuel)) '}' steps cs
            = some (((n, v) :: rereadFields fs).map fun f => (f.1.toList.map some, f.2), rest)
  | [], level, fuel, steps, cs, rest, n, v, _, hsteps, h => by
    simp only [layFields, List.length_append, List.length_cons] at hsteps
    obtain ⟨steps, rfl⟩ : ∃ n, steps = n + 1 := ⟨steps - 1, by omega⟩
    have hclose : skipBlank ((layFields s level []).map some ++ rest) = some '}' :: rest := by
      rw [layFields, List.map_append, List.append_assoc, skipBlank_gap (s.gap_isBlank level)]
      rfl
    simp [separated, h, hclose, rereadFields]
  | (m, w) :: fs, level, fuel, steps, cs, rest, n, v, hfuel, hsteps, h => by
    simp only [layFields, List.cons_append, List.length_cons, List.length_append] at hfuel hsteps
    obtain ⟨steps, rfl⟩ : ∃ n, steps = n + 1 := ⟨steps - 1, by omega⟩
    have hw := value_lay s w (level + 1) fuel (by omega)
      (stops_layFields s level fs rest)
    have hfs := separated_layFields s fs level fuel steps (by omega) (by omega)
      (field_quote (s := s) m (level + 1) hw)
    have hcomma : skipBlank ((layFields s level ((m, w) :: fs)).map some ++ rest)
        = some ',' :: ((s.gap (level + 1)).map some ++ ((quote m).map some
          ++ (some ':' :: (s.space.map some ++ ((lay s (level + 1) w).map some
            ++ ((layFields s level fs).map some ++ rest)))))) := by
      simp [layFields, skipBlank, isBlank]
    simp [separated, h, hcomma, hfs, rereadFields]

end

/-- A compact document is read back. -/
theorem ofBytes?_compact (v : Value) :
  ofBytes? (Text.encode (String.ofList (compact v))) = some ((reread v).limit maxDepth)
  := by
  rw [ofBytes?, Text.symbols_encode, String.toList_ofList]
  apply read?_eq_some_iff.mpr
  refine ⟨reread v, ⟨[], ?_, rfl⟩, rfl⟩
  have h := value_lay .none v 0 (compact v).length (Nat.le_of_eq (by rw [compact_eq_lay v 0]))
    stops_nil
  rw [← compact_eq_lay, List.append_nil] at h
  rwa [List.length_map]

/-- An artifact is read back. -/
theorem ofBytes?_render (v : Value) :
  ofBytes? (Text.encode (render v)) = some ((reread v).limit maxDepth)
  := by
  rw [ofBytes?, Text.symbols_encode, render, String.toList_ofList]
  apply read?_eq_some_iff.mpr
  refine ⟨reread v, ⟨[some '\n'], ?_, rfl⟩, rfl⟩
  rw [List.length_map, List.map_append, pretty_eq_lay]
  exact value_lay .indented v 0 _ (by simp) (stops_cons (by decide) [])

/-! ### Values that are kept -/

/-- A value that is read back unchanged, with at most `d` lists and records inside each
other. -/
structure Kept (d : Nat) (v : Value) : Prop where
  reread : reread v = v
  isReadable : v.isReadable = true
  depth : v.depth ≤ d

namespace Kept

variable {d : Nat}

theorem null :
  Kept d .null
  := ⟨rfl, rfl, Nat.zero_le d⟩

theorem bool (b : Bool) :
  Kept d (.bool b)
  := ⟨rfl, rfl, Nat.zero_le d⟩

theorem text (t : String) :
  Kept d (.text t)
  := ⟨rfl, rfl, Nat.zero_le d⟩

theorem nat {n : Nat} (h : n < UInt64.size) :
  Kept d (.nat n)
  where
    reread := by
      rw [Value.nat, Json.reread, Numeral.value?_ofInt h]
      rfl
    isReadable := rfl
    depth := Nat.zero_le d

theorem ofOption {α : Type} {f : α → Value} (h : ∀ a, Kept d (f a)) (o : Option α) :
  Kept d (.ofOption f o)
  := by
  cases o with
  | none => exact null
  | some a => exact h a

theorem list {vs : List Value} (h : ∀ v ∈ vs, Kept d v) :
  Kept (d + 1) (.list vs)
  where
    reread := by
      rw [Json.reread, rereadItems_eq_map, List.map_congr_left fun v hv => (h v hv).reread,
        List.map_id']
    isReadable := Value.areReadable_iff.mpr fun v hv => (h v hv).isReadable
    depth := Value.depth_list_le_iff.mpr fun v hv => (h v hv).depth

theorem record {fs : List (String × Value)} (h : ∀ f ∈ fs, Kept d f.2) :
  Kept (d + 1) (.record fs)
  where
    reread := by
      have hfields : fs.map (fun f => (f.1, Json.reread f.2)) = fs.map id := by
        apply List.map_congr_left
        intro f hf
        rw [(h f hf).reread]
        rfl
      rw [Json.reread, rereadFields_eq_map, hfields, List.map_id]
    isReadable := Value.fieldsAreReadable_iff.mpr fun f hf => (h f hf).isReadable
    depth := Value.depth_record_le_iff.mpr fun f hf => (h f hf).depth

/-- A value that is kept is read back from its compact document. -/
theorem ofBytes?_compact {v : Value} (h : Kept maxDepth v) :
  ofBytes? (Text.encode (String.ofList (compact v))) = some v
  := by
  rw [Json.ofBytes?_compact, h.reread, Value.limit_of_depth_le h.depth]

end Kept

/-! ### Compact documents on a line -/

theorem le_toNat_of_mem {cs : List Char} {c : Char} (h : c ∈ cs)
    (hall : cs.all (fun d => 0x20 ≤ d.toNat) = true) :
  0x20 ≤ c.toNat
  := by
  simpa using List.all_eq_true.mp hall c h

theorem le_toNat_of_mem_escape {c d : Char} (h : d ∈ escape c) :
  0x20 ≤ d.toNat
  := by
  have hhex {n : Nat} (hn : n < 16) : 0x20 ≤ (hexDigit n).toNat := by
    revert hn n
    decide
  rcases escape_cases c with ⟨e, heq, -, he⟩ | ⟨heq, hc⟩ | ⟨heq, -, -, hc⟩
  · simp only [heq, List.mem_cons, List.not_mem_nil, or_false] at h
    rcases h with rfl | rfl
    · decide
    · exact he
  · simp only [heq, List.mem_cons, List.not_mem_nil, or_false] at h
    rcases h with rfl | rfl | rfl | rfl | rfl | rfl
    · decide
    · decide
    · decide
    · decide
    · exact hhex (by omega)
    · exact hhex (by omega)
  · rw [heq, List.mem_singleton] at h
    rwa [h]

theorem le_toNat_of_mem_quote {t : String} {c : Char} (h : c ∈ quote t) :
  0x20 ≤ c.toNat
  := by
  simp only [quote, List.mem_append, List.mem_cons, List.mem_flatMap, List.not_mem_nil,
    or_false] at h
  rcases h with (rfl | ⟨d, -, hd⟩) | rfl
  · decide
  · exact le_toNat_of_mem_escape hd
  · decide

mutual

/-- A compact document has no control characters. -/
theorem le_toNat_of_mem_compact : ∀ {v : Value} {c : Char}, c ∈ compact v → 0x20 ≤ c.toNat
  | .null, c, h => le_toNat_of_mem h (by decide)
  | .bool true, c, h => le_toNat_of_mem h (by decide)
  | .bool false, c, h => le_toNat_of_mem h (by decide)
  | .unreadable, c, h => le_toNat_of_mem h (by decide)
  | .int n, c, h => by
    rw [compact, intText_eq] at h
    exact le_toNat_of_mem_signedText (Numeral.wellFormed_ofInt n) h
  | .float x, c, h => by
    rw [compact] at h
    by_cases hx : x.isFinite = true
    · rw [floatText_eq hx] at h
      exact le_toNat_of_mem_signedText (Numeral.wellFormed_ofFloat x) h
    · rw [floatText, if_neg hx] at h
      exact le_toNat_of_mem h (by decide)
  | .text t, c, h => le_toNat_of_mem_quote h
  | .list [], c, h => le_toNat_of_mem h (by decide)
  | .list (v :: vs), c, h => by
    simp only [compact, List.cons_append, List.mem_cons, List.mem_append] at h
    rcases h with rfl | h | h
    · decide
    · exact le_toNat_of_mem_compact h
    · exact le_toNat_of_mem_compactItems h
  | .record [], c, h => le_toNat_of_mem h (by decide)
  | .record ((n, v) :: fs), c, h => by
    simp only [compact, List.cons_append, List.mem_cons, List.mem_append] at h
    rcases h with rfl | ((h | rfl | h) | h)
    · decide
    · exact le_toNat_of_mem_quote h
    · decide
    · exact le_toNat_of_mem_compact h
    · exact le_toNat_of_mem_compactFields h

theorem le_toNat_of_mem_compactItems :
    ∀ {vs : List Value} {c : Char}, c ∈ compactItems vs → 0x20 ≤ c.toNat
  | [], c, h => le_toNat_of_mem h (by decide)
  | v :: vs, c, h => by
    simp only [compactItems, List.cons_append, List.mem_cons, List.mem_append] at h
    rcases h with rfl | h | h
    · decide
    · exact le_toNat_of_mem_compact h
    · exact le_toNat_of_mem_compactItems h

theorem le_toNat_of_mem_compactFields :
    ∀ {fs : List (String × Value)} {c : Char}, c ∈ compactFields fs → 0x20 ≤ c.toNat
  | [], c, h => le_toNat_of_mem h (by decide)
  | (n, v) :: fs, c, h => by
    simp only [compactFields, List.cons_append, List.mem_cons, List.mem_append] at h
    rcases h with rfl | ((h | rfl | h) | h)
    · decide
    · exact le_toNat_of_mem_quote h
    · decide
    · exact le_toNat_of_mem_compact h
    · exact le_toNat_of_mem_compactFields h

end

end CorpusAudit.Json
