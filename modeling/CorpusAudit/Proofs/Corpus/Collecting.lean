import CorpusAudit.Corpus.Basic
import CorpusAudit.Proofs.Float
import CorpusAudit.Proofs.Table
import Mathlib

/-!
# What is collected from rows

A collector takes, in the order of the rows, the record of every valid row whose
identifier no earlier valid row has (`Collector.Enters`).  Rejected rows leave no trace in
the records, so they may as well be deleted.  The account of the rows adds up, and a
corpus is refused for a missing column exactly when no object has that column.
-/

namespace CorpusAudit

/-! ### Missing columns -/

/-- The first column that is missing where the columns with `isPresent` are there: the
first of the required ones or, all of these being there, that of the features if the text
of the program is missing as well. -/
def Column.IsFirstAbsent (isPresent : Column → Bool) (c : Column) : Prop :=
  (∃ before after, Column.required = before ++ c :: after ∧ isPresent c = false
    ∧ ∀ d ∈ before, isPresent d = true)
  ∨ ((∀ d ∈ Column.required, isPresent d = true) ∧ c = .features
    ∧ isPresent .features = false ∧ isPresent .source = false)

theorem Column.firstAbsent?_eq_some_iff {isPresent : Column → Bool} {c : Column} :
  Column.firstAbsent? isPresent = some c ↔ Column.IsFirstAbsent isPresent c
  := by
  simp only [Column.firstAbsent?, Column.IsFirstAbsent]
  cases h : Column.required.find? fun c => !isPresent c with
  | some d =>
    obtain ⟨hd, before, after, hsplit, hbefore⟩ := List.find?_eq_some_iff_append.mp h
    have hd' : isPresent d = false := by simpa using hd
    have hbefore' : ∀ e ∈ before, isPresent e = true := by simpa using hbefore
    constructor
    · intro he
      obtain rfl : d = c := by simpa using he
      exact Or.inl ⟨before, after, hsplit, hd', hbefore'⟩
    · rintro (⟨before', after', hsplit', hc, hbefore''⟩ | ⟨hall, -⟩)
      · have hfind : Column.required.find? (fun c => !isPresent c) = some c := by
          apply List.find?_eq_some_iff_append.mpr
          refine ⟨by simpa using hc, before', after', hsplit', ?_⟩
          simpa using hbefore''
        rw [← h, hfind]
      · have : d ∈ Column.required := by simp [hsplit]
        rw [hall d this] at hd'
        exact absurd hd' (by simp)
  | none =>
    have hall : ∀ d ∈ Column.required, isPresent d = true := by simpa using h
    constructor
    · intro he
      right
      refine ⟨hall, ?_⟩
      cases hf : isPresent .features <;> cases hs : isPresent .source <;> simp_all
    · rintro (⟨before, after, hsplit, hc, -⟩ | ⟨-, rfl, hf, hs⟩)
      · have : c ∈ Column.required := by simp [hsplit]
        rw [hall c this] at hc
        exact absurd hc (by simp)
      · simp [hf, hs]

theorem Column.firstAbsent?_eq_none_iff {isPresent : Column → Bool} :
  Column.firstAbsent? isPresent = none
    ↔ (∀ c ∈ Column.required, isPresent c = true)
      ∧ (isPresent .features = true ∨ isPresent .source = true)
  := by
  simp only [Column.firstAbsent?]
  cases h : Column.required.find? fun c => !isPresent c with
  | some d =>
    have hmem := List.mem_of_find?_eq_some h
    have hd : isPresent d = false := by simpa using List.find?_some h
    constructor
    · simp
    · rintro ⟨hall, -⟩
      rw [hall d hmem] at hd
      exact absurd hd (by simp)
  | none =>
    have hall : ∀ d ∈ Column.required, isPresent d = true := by simpa using h
    constructor
    · intro he
      refine ⟨hall, ?_⟩
      cases hf : isPresent .features <;> simp_all
    · rintro ⟨-, hf | hs⟩
      · simp [hf]
      · simp [hs]

theorem Column.name_injective {c d : Column} (h : c.name = d.name) :
  c = d
  := by
  revert h
  cases c <;> cases d <;> decide +kernel

/-! ### Valid rows -/

namespace Row

/-- A row is valid and holds a record: it is an object with the required columns and one
of the two others, and its values are of the right kind. -/
def Holds (row : Option Value) (r : Record) : Prop :=
  ∃ fields, row = some (.record fields)
    ∧ (∀ c ∈ Column.required, hasColumn fields c = true)
    ∧ (hasColumn fields .features = true ∨ hasColumn fields .source = true)
    ∧ decode (.record fields) = some r

/-- Rows are read as what they hold. -/
theorem read_eq_ok_iff {row : Option Value} {r : Record} :
  read row = .ok r ↔ Holds row r
  := by
  constructor
  · intro h
    rcases row with _ | v
    · simp [read] at h
    cases v with
    | record fields =>
      simp only [read, fields?] at h
      split at h
      · simp at h
      · next hcolumns =>
        obtain ⟨hrequired, hother⟩ := Column.firstAbsent?_eq_none_iff.mp hcolumns
        refine ⟨fields, rfl, hrequired, hother, ?_⟩
        split at h
        · next hdecode =>
          simp only [Except.ok.injEq] at h
          rw [hdecode, h]
        · simp at h
    | _ => simp [read, fields?] at h
  · rintro ⟨fields, rfl, hrequired, hother, hdecode⟩
    have hcolumns := Column.firstAbsent?_eq_none_iff.mpr ⟨hrequired, hother⟩
    simp [read, fields?, hcolumns, hdecode]

/-- A row holds at most one record. -/
theorem Holds.unique {row : Option Value} {r s : Record} (hr : Holds row r) (hs : Holds row s) :
  r = s
  := by
  have h := (read_eq_ok_iff.mpr hr).symm.trans (read_eq_ok_iff.mpr hs)
  simpa using h

end Row

/-- An account that adds up: every row is loaded or skipped, and every skipped row is
counted under one reason. -/
structure RowCount.AddsUp (n : RowCount) : Prop where
  total : n.total = n.loaded + n.skipped
  reasons : n.reasons.values.sum = n.skipped

namespace Collector

/-! ### One more row -/

theorem presence_push (c : Collector) (row : Option Value) :
  (c.push row).presence = c.presence.observe row
  := by
  simp only [push]
  split
  · rfl
  · split <;> rfl

/-- A valid row whose identifier is not taken is collected. -/
theorem push_of_holds {c : Collector} {row : Option Value} {r : Record} (hr : Row.Holds row r)
    (hid : r.id ∉ c.taken) :
  c.push row = { c with presence := c.presence.observe row }.accept r
  := by
  simp [push, Row.read_eq_ok_iff.mpr hr, hid]

/-- Any other row is counted and leaves no trace in the records. -/
theorem push_of_rejected {c : Collector} {row : Option Value}
    (h : ∀ r, Row.Holds row r → r.id ∈ c.taken) :
  ∃ e, c.push row = { c with presence := c.presence.observe row }.reject e
  := by
  cases hread : Row.read row with
  | error e =>
    use e
    simp [push, hread]
  | ok r =>
    use .duplicateId
    simp [push, hread, h r (Row.read_eq_ok_iff.mp hread)]

/-- A row is collected or rejected. -/
theorem holds_or_rejected (c : Collector) (row : Option Value) :
  (∃ r, Row.Holds row r ∧ r.id ∉ c.taken) ∨ ∀ r, Row.Holds row r → r.id ∈ c.taken
  := by
  by_cases h : ∃ r, Row.Holds row r ∧ r.id ∉ c.taken
  · exact Or.inl h
  · right
    intro r hr
    apply Classical.byContradiction
    intro hid
    exact h ⟨r, hr, hid⟩

theorem collect_concat (rows : List (Option Value)) (row : Option Value) :
  collect (rows ++ [row]) = (collect rows).push row
  := by
  simp [collect]

/-! ### All rows -/

/-- The identifiers that are taken are those of the valid rows. -/
theorem mem_taken_collect {rows : List (Option Value)} {s : String} :
  s ∈ (collect rows).taken ↔ ∃ row ∈ rows, ∃ r, Row.Holds row r ∧ r.id = s
  := by
  induction rows using List.reverseRecOn with
  | nil => simp [collect, start]
  | append_singleton rows row ih =>
    rw [collect_concat]
    rcases holds_or_rejected (collect rows) row with ⟨r, hr, hid⟩ | h
    · rw [push_of_holds hr hid]
      simp only [accept, List.mem_cons, ih, List.mem_append, List.not_mem_nil, or_false]
      constructor
      · rintro (rfl | ⟨row', hmem, r', hr', rfl⟩)
        · exact ⟨row, Or.inr rfl, r, hr, rfl⟩
        · exact ⟨row', Or.inl hmem, r', hr', rfl⟩
      · rintro ⟨row', hmem | rfl, r', hr', rfl⟩
        · exact Or.inr ⟨row', hmem, r', hr', rfl⟩
        · exact Or.inl (congrArg Record.id (hr'.unique hr))
    · obtain ⟨e, he⟩ := push_of_rejected h
      rw [he]
      simp only [reject, ih, List.mem_append, List.mem_cons, List.not_mem_nil, or_false]
      constructor
      · rintro ⟨row', hmem, r', hr', rfl⟩
        exact ⟨row', Or.inl hmem, r', hr', rfl⟩
      · rintro ⟨row', hmem | rfl, r', hr', rfl⟩
        · exact ⟨row', hmem, r', hr', rfl⟩
        · exact ih.mp (h r' hr')

/-- The row at place `i` enters the corpus with the record `r`: it is valid, and no valid
row before it has its identifier. -/
def Enters (rows : List (Option Value)) (i : Nat) (r : Record) : Prop :=
  (∃ row, rows[i]? = some row ∧ Row.Holds row r)
  ∧ ∀ j < i, ∀ row s, rows[j]? = some row → Row.Holds row s → s.id ≠ r.id

theorem Enters.lt_length {rows : List (Option Value)} {i : Nat} {r : Record}
    (h : Enters rows i r) :
  i < rows.length
  := by
  obtain ⟨⟨row, hrow, -⟩, -⟩ := h
  exact (List.getElem?_eq_some_iff.mp hrow).1

/-- Which rows enter does not depend on the rows that follow; a row enters if it is valid
and its identifier is not taken by the rows before it. -/
theorem enters_concat {rows : List (Option Value)} {row : Option Value} {i : Nat} {r : Record} :
  Enters (rows ++ [row]) i r
    ↔ Enters rows i r ∨ i = rows.length ∧ Row.Holds row r ∧ r.id ∉ (collect rows).taken
  := by
  have before {j : Nat} (hj : j < rows.length) : (rows ++ [row])[j]? = rows[j]? :=
    List.getElem?_append_left hj
  constructor
  · rintro ⟨⟨row', hrow', hr⟩, hfirst⟩
    have hi : i < rows.length + 1 := by
      simpa using (List.getElem?_eq_some_iff.mp hrow').1
    by_cases hlt : i < rows.length
    · left
      refine ⟨⟨row', by rw [← before hlt, hrow'], hr⟩, ?_⟩
      intro j hj row'' s hrow''
      exact hfirst j hj row'' s (by rw [before (Nat.lt_trans hj hlt), hrow''])
    · right
      obtain rfl : i = rows.length := by omega
      obtain rfl : row = row' := by simpa using hrow'
      refine ⟨rfl, hr, ?_⟩
      intro hid
      obtain ⟨row'', hmem, s, hs, heq⟩ := mem_taken_collect.mp hid
      obtain ⟨j, hj, hrow''⟩ := List.mem_iff_getElem.mp hmem
      apply hfirst j hj row'' s _ hs heq
      rw [before hj, List.getElem?_eq_getElem hj, hrow'']
  · rintro (h | ⟨rfl, hr, hid⟩)
    · have hlt := h.lt_length
      obtain ⟨⟨row', hrow', hr⟩, hfirst⟩ := h
      refine ⟨⟨row', by rw [before hlt, hrow'], hr⟩, ?_⟩
      intro j hj row'' s hrow''
      exact hfirst j hj row'' s (by rw [← before (Nat.lt_trans hj hlt), hrow''])
    · refine ⟨⟨row, by simp, hr⟩, ?_⟩
      intro j hj row'' s hrow'' hs heq
      apply hid
      apply mem_taken_collect.mpr
      rw [before hj] at hrow''
      exact ⟨row'', List.mem_of_getElem? hrow'', s, hs, heq⟩

/-- The records are those of the rows that enter, in the order of the rows. -/
theorem records_collect (rows : List (Option Value)) :
  ∃ places : List Nat, places.Pairwise (· < ·)
    ∧ List.Forall₂ (Enters rows) places (collect rows).records.toList
    ∧ ∀ i r, Enters rows i r → i ∈ places
  := by
  induction rows using List.reverseRecOn with
  | nil => exact ⟨[], List.Pairwise.nil, List.Forall₂.nil, by simp [Enters]⟩
  | append_singleton rows row ih =>
    obtain ⟨places, hsorted, hrecords, hall⟩ := ih
    have hkeep : List.Forall₂ (Enters (rows ++ [row])) places (collect rows).records.toList :=
      hrecords.imp fun _ _ h => enters_concat.mpr (Or.inl h)
    rw [collect_concat]
    rcases holds_or_rejected (collect rows) row with ⟨r, hr, hid⟩ | h
    · refine ⟨places ++ [rows.length], ?_, ?_, ?_⟩
      · apply List.pairwise_append.mpr
        refine ⟨hsorted, List.pairwise_singleton _ _, ?_⟩
        intro i hi j hj
        obtain rfl : j = rows.length := by simpa using hj
        obtain ⟨k, hk, rfl⟩ := List.mem_iff_getElem.mp hi
        exact (hrecords.get hk (hrecords.length_eq ▸ hk)).lt_length
      · rw [push_of_holds hr hid]
        simp only [accept, Array.toList_push]
        apply List.rel_append hkeep
        apply List.Forall₂.cons _ List.Forall₂.nil
        exact enters_concat.mpr (Or.inr ⟨rfl, hr, hid⟩)
      · intro i r' h'
        rcases enters_concat.mp h' with h' | ⟨rfl, -⟩
        · exact List.mem_append_left _ (hall i r' h')
        · simp
    · obtain ⟨e, he⟩ := push_of_rejected h
      rw [he]
      refine ⟨places, hsorted, hkeep, ?_⟩
      intro i r' h'
      rcases enters_concat.mp h' with h' | ⟨-, hr', hid⟩
      · exact hall i r' h'
      · exact absurd (h r' hr') hid

/-- No two records have one identifier. -/
theorem nodup_ids_collect (rows : List (Option Value)) :
  ((collect rows).records.toList.map Record.id).Nodup
    ∧ ∀ s, s ∈ (collect rows).records.toList.map Record.id ↔ s ∈ (collect rows).taken
  := by
  induction rows using List.reverseRecOn with
  | nil => simp [collect, start]
  | append_singleton rows row ih =>
    rw [collect_concat]
    rcases holds_or_rejected (collect rows) row with ⟨r, hr, hid⟩ | h
    · rw [push_of_holds hr hid]
      simp only [accept, Array.toList_push, List.map_append, List.map_cons, List.map_nil,
        List.mem_append, List.mem_cons, List.not_mem_nil, or_false]
      constructor
      · apply List.nodup_append.mpr
        refine ⟨ih.1, by simp, ?_⟩
        rintro s hs t ht rfl
        obtain rfl : s = r.id := by simpa using ht
        exact hid ((ih.2 _).mp hs)
      · intro s
        rw [ih.2 s, or_comm]
    · obtain ⟨e, he⟩ := push_of_rejected h
      rw [he]
      exact ih

/-! ### Deleting rejected rows -/

/-- The rows at the places that are kept. -/
def kept (keep : Nat → Bool) (rows : List (Option Value)) : List (Option Value) :=
  (rows.zipIdx.filter fun p => keep p.2).map (·.1)

theorem kept_concat (keep : Nat → Bool) (rows : List (Option Value)) (row : Option Value) :
  kept keep (rows ++ [row]) = kept keep rows ++ if keep rows.length then [row] else []
  := by
  simp only [kept, List.zipIdx_append, List.filter_append, List.map_append, List.zipIdx_cons,
    List.zipIdx_nil, Nat.zero_add]
  by_cases h : keep rows.length <;> simp [h]

/-- Deleting rejected rows changes neither the records nor their identifiers. -/
theorem collect_kept {rows : List (Option Value)} {keep : Nat → Bool}
    (h : ∀ i r, Enters rows i r → keep i = true) :
  (collect (kept keep rows)).records = (collect rows).records
    ∧ (collect (kept keep rows)).taken = (collect rows).taken
  := by
  induction rows using List.reverseRecOn with
  | nil => exact ⟨rfl, rfl⟩
  | append_singleton rows row ih =>
    obtain ⟨hrecords, htaken⟩ := ih fun i r hi => h i r (enters_concat.mpr (Or.inl hi))
    rw [kept_concat, collect_concat]
    rcases holds_or_rejected (collect rows) row with ⟨r, hr, hid⟩ | hrejected
    · have hkeep := h rows.length r (enters_concat.mpr (Or.inr ⟨rfl, hr, hid⟩))
      rw [if_pos hkeep, collect_concat, push_of_holds hr hid, push_of_holds hr (htaken ▸ hid)]
      simp [accept, hrecords, htaken]
    · obtain ⟨e, he⟩ := push_of_rejected hrejected
      rw [he]
      split
      · obtain ⟨e', he'⟩ := push_of_rejected (htaken ▸ hrejected)
        rw [collect_concat, he']
        exact ⟨hrecords, htaken⟩
      · rw [List.append_nil]
        exact ⟨hrecords, htaken⟩

/-! ### The account of the rows -/

/-- The account of a collector: it adds up and is about the records that it has. -/
theorem rows_collect (rows : List (Option Value)) :
  (collect rows).rows.AddsUp
    ∧ (collect rows).rows.total = rows.length
    ∧ (collect rows).rows.loaded = (collect rows).records.size
  := by
  induction rows using List.reverseRecOn with
  | nil => exact ⟨⟨rfl, rfl⟩, rfl, rfl⟩
  | append_singleton rows row ih =>
    obtain ⟨⟨htotal, hreasons⟩, hlength, hloaded⟩ := ih
    rw [collect_concat]
    rcases holds_or_rejected (collect rows) row with ⟨r, hr, hid⟩ | h
    · rw [push_of_holds hr hid]
      simp only [accept, RowCount.accept, Array.size_push, List.length_append, List.length_cons,
        List.length_nil]
      refine ⟨⟨?_, hreasons⟩, ?_, ?_⟩
      · simp only
        omega
      · omega
      · omega
    · obtain ⟨e, he⟩ := push_of_rejected h
      rw [he]
      simp only [reject, RowCount.reject, List.length_append, List.length_cons, List.length_nil]
      refine ⟨⟨?_, ?_⟩, ?_, hloaded⟩
      · simp only
        omega
      · simp only [Table.sum_values_count]
        omega
      · omega

/-! ### Missing columns -/

/-- Whether some object among the rows has a column. -/
def carries (rows : List (Option Value)) (c : Column) : Bool :=
  rows.any fun row => (Row.fields? row).any fun fields => Row.hasColumn fields c

/-- Whether there are objects among the rows. -/
def hasObjects (rows : List (Option Value)) : Bool :=
  rows.any fun row => (Row.fields? row).isSome

theorem presence_collect (rows : List (Option Value)) :
  ((collect rows).presence.objects ≠ 0 ↔ hasObjects rows = true)
    ∧ ∀ c, (collect rows).presence.seen.contains c = carries rows c
  := by
  induction rows using List.reverseRecOn with
  | nil =>
    refine ⟨by decide, ?_⟩
    intro c
    rfl
  | append_singleton rows row ih =>
    obtain ⟨hobjects, hseen⟩ := ih
    rw [collect_concat, presence_push]
    cases hrow : Row.fields? row with
    | none =>
      simp only [Presence.observe, hrow, hasObjects, carries, List.any_append, List.any_cons,
        List.any_nil, Option.isSome_none, Option.any_none, Bool.or_false]
      exact ⟨hobjects, hseen⟩
    | some fields =>
      simp only [Presence.observe, hrow]
      refine ⟨by simp [hasObjects, hrow], ?_⟩
      intro c
      have hc : c ∈ Column.all := by cases c <;> decide
      have hcarries : carries (rows ++ [row]) c = (carries rows c || Row.hasColumn fields c) := by
        simp [carries, hrow]
      rw [hcarries, ← hseen c, Bool.eq_iff_iff]
      simp only [List.contains_iff_mem, List.mem_filter, hc, true_and]

theorem firstAbsent?_collect (rows : List (Option Value)) (c : Column) :
  (collect rows).presence.firstAbsent? = some c
    ↔ hasObjects rows = true ∧ Column.IsFirstAbsent (carries rows) c
  := by
  obtain ⟨hobjects, hseen⟩ := presence_collect rows
  have hcarries : (collect rows).presence.seen.contains = carries rows := funext hseen
  rw [Presence.firstAbsent?, hcarries, ← Column.firstAbsent?_eq_some_iff, ← hobjects]
  split
  · next h => simp [h]
  · next h => simp [h]

end Collector

/-! ### Corpora of tables -/

open Collector

/-- A table is refused for a missing column exactly if it has objects and the column is the
first that none of them has. -/
theorem Corpus.ofRows_eq_missingColumn_iff (limit : Float) (rows : List (Option Value))
    (c : Column) :
  ofRows limit rows = .error (.missingColumn c.name)
    ↔ hasObjects rows = true ∧ Column.IsFirstAbsent (carries rows) c
  := by
  rw [← firstAbsent?_collect, ofRows, finish]
  cases h : (collect rows).presence.firstAbsent? with
  | some d =>
    simp only [Except.error.injEq, SchemaFault.missingColumn.injEq, Option.some.injEq]
    exact ⟨Column.name_injective, congrArg Column.name⟩
  | none =>
    simp only [reduceCtorEq, iff_false]
    split <;> simp

/-- A table of which no column is missing is refused exactly if too many of its rows are
rejected. -/
theorem Corpus.ofRows_of_carries {rows : List (Option Value)}
    (h : ∀ c, ¬ (hasObjects rows = true ∧ Column.IsFirstAbsent (carries rows) c)) (limit : Float) :
  ofRows limit rows =
    if (collect rows).rows.skipRatio > limit then
      .error (.tooManySkipped (collect rows).rows.skipped (collect rows).rows.total
        ((collect rows).rows.skipRatio * 100) (limit * 100))
    else .ok ⟨(collect rows).records.toList, (collect rows).rows⟩
  := by
  have hnone : (collect rows).presence.firstAbsent? = none := by
    apply Option.eq_none_iff_forall_not_mem.mpr
    intro c hc
    exact h c ((firstAbsent?_collect rows c).mp hc)
  simp [ofRows, finish, hnone]

/-! ### Tables without rejected rows -/

theorem Collector.foldl_push_of_holds {rows : List (Option Value)} {rs : List Record}
    (h : List.Forall₂ Row.Holds rows rs) (hnodup : (rs.map Record.id).Nodup) (c : Collector)
    (hnew : ∀ r ∈ rs, r.id ∉ c.taken) :
  (rows.foldl push c).records.toList = c.records.toList ++ rs
    ∧ (rows.foldl push c).rows = { c.rows with
      total := c.rows.total + rs.length, loaded := c.rows.loaded + rs.length }
  := by
  induction h generalizing c with
  | nil => simp
  | @cons row r rows rs hr _ ih =>
    simp only [List.map_cons, List.nodup_cons] at hnodup
    have hpush := push_of_holds hr (hnew r List.mem_cons_self)
    obtain ⟨hrecords, hrows⟩ := ih hnodup.2 (c.push row) (by
      intro s hs
      rw [hpush]
      simp only [accept, List.mem_cons, not_or]
      refine ⟨?_, hnew s (List.mem_cons_of_mem _ hs)⟩
      intro heq
      exact hnodup.1 (heq ▸ List.mem_map_of_mem hs))
    rw [List.foldl_cons, hrecords, hrows, hpush]
    simp [accept, RowCount.accept, Nat.add_assoc, Nat.add_comm 1]

/-- A table all of whose rows hold records with different identifiers is the corpus of these
records, and no row is skipped. -/
theorem Corpus.ofRows_of_holds {rows : List (Option Value)} {rs : List Record}
    (h : List.Forall₂ Row.Holds rows rs) (hnodup : (rs.map Record.id).Nodup) {limit : Float}
    (hlimit : 0 ≤ limit) :
  ofRows limit rows = .ok (ofRecords rs)
  := by
  obtain ⟨hrecords, hrows⟩ := foldl_push_of_holds h hnodup start (by simp [start])
  have hcolumns : ∀ c, ¬ (hasObjects rows = true ∧ Column.IsFirstAbsent (carries rows) c) := by
    rintro c ⟨hobjects, habsent⟩
    obtain ⟨row, hrow, -⟩ := List.any_eq_true.mp hobjects
    obtain ⟨i, hi, rfl⟩ := List.mem_iff_getElem.mp hrow
    obtain ⟨fields, hfields, hrequired, hother⟩ := h.get hi (h.length_eq ▸ hi)
    have hcarries {d : Column} (hd : Row.hasColumn fields d = true) : carries rows d = true := by
      apply List.any_eq_true.mpr
      refine ⟨rows[i], hrow, ?_⟩
      have hfields' : rows[i] = some (.record fields) := hfields
      simpa [hfields', Row.fields?] using hd
    rcases habsent with ⟨before, after, hsplit, hc, -⟩ | ⟨-, -, hfeatures, hsource⟩
    · rw [hcarries (hrequired c (by simp [hsplit]))] at hc
      exact absurd hc (by simp)
    · rcases hother.1 with hd | hd
      · rw [hcarries hd] at hfeatures
        exact absurd hfeatures (by simp)
      · rw [hcarries hd] at hsource
        exact absurd hsource (by simp)
  have hratio : IsNothing (collect rows).rows.skipRatio := by
    rw [collect, hrows, RowCount.skipRatio]
    split
    · exact isNothing_zero
    · exact isNothing_zero_div _
  rw [ofRows_of_carries hcolumns, if_neg (not_gt_of_isNothing hratio hlimit), collect, hrecords,
    hrows]
  simp [start, RowCount.zero, ofRecords]

/-- What is collected from the rows of a table: the records of the valid rows whose
identifier no earlier valid row has, in the order of the rows.  Their identifiers differ,
the account of the rows adds up, and rejected rows may be deleted without effect on the
records.  A missing column is told whatever the part of the rows that is rejected; without
one, this part alone decides. -/
theorem Corpus.collects_first_valid_rows (limit : Float) (rows : List (Option Value)) :
  (∃ places : List Nat, places.Pairwise (· < ·)
      ∧ List.Forall₂ (Enters rows) places (collect rows).records.toList
      ∧ ∀ i r, Enters rows i r → i ∈ places)
    ∧ ((collect rows).records.toList.map Record.id).Nodup
    ∧ ((collect rows).rows.total = rows.length
      ∧ (collect rows).rows.total = (collect rows).rows.loaded + (collect rows).rows.skipped
      ∧ (collect rows).rows.loaded = (collect rows).records.toList.length
      ∧ (collect rows).rows.reasons.values.sum = (collect rows).rows.skipped)
    ∧ (∀ keep : Nat → Bool, (∀ i r, Enters rows i r → keep i = true) →
      (collect (kept keep rows)).records = (collect rows).records)
    ∧ (∀ c, ofRows limit rows = .error (.missingColumn c.name)
      ↔ hasObjects rows = true ∧ Column.IsFirstAbsent (carries rows) c)
    ∧ ((∀ c, ¬ (hasObjects rows = true ∧ Column.IsFirstAbsent (carries rows) c)) →
      ofRows limit rows =
        if (collect rows).rows.skipRatio > limit then
          .error (.tooManySkipped (collect rows).rows.skipped (collect rows).rows.total
            ((collect rows).rows.skipRatio * 100) (limit * 100))
        else .ok ⟨(collect rows).records.toList, (collect rows).rows⟩)
  := by
  obtain ⟨⟨htotal, hreasons⟩, hlength, hloaded⟩ := rows_collect rows
  refine ⟨records_collect rows, (nodup_ids_collect rows).1, ⟨hlength, htotal, hloaded, hreasons⟩,
    ?_, ofRows_eq_missingColumn_iff limit rows, fun h => ofRows_of_carries h limit⟩
  intro keep h
  exact (collect_kept h).1

end CorpusAudit
