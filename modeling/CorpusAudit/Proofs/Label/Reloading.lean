import CorpusAudit.Proofs.Label.Rows
import CorpusAudit.Proofs.Storage.Trees

/-!
# Labelled corpora that are read again

A labelled corpus is written one row to a line.  Whatever characters its texts have, each
row stays on its line, so reading the file gives the records again, none of them being
skipped, and labels do not change when the same rules are used.
-/

namespace CorpusAudit

open Json (compact)
open Text (encode)

/-! ### The layout of a file -/

namespace Layout

/-- Pieces put together are what was cut. -/
theorem flatten_pieces {size : Nat} (h : size ≠ 0) (bytes : Bytes) :
  (pieces size bytes).flatten = bytes
  := by
  fun_induction pieces size bytes with
  | case1 bytes hnone =>
    rcases hnone with hsize | rfl
    · exact absurd hsize h
    · rfl
  | case2 bytes hsome ih => rw [List.flatten_cons, ih, List.take_append_drop]

/-- A file that starts with a character other than an opening bracket holds lines. -/
theorem sniff_pieces_of_cons {size : Nat} (h : size ≠ 0) {b : UInt8} (bytes : Bytes)
    (hblank : Text.isBlankByte b = false) (hbracket : b ≠ 0x5B) :
  sniff (pieces size (b :: bytes)) = (.lines, b :: bytes)
  := by
  obtain ⟨size, rfl⟩ : ∃ n, size = n + 1 := ⟨size - 1, by omega⟩
  have hflatten := flatten_pieces h (b :: bytes)
  rw [pieces, dif_neg (by simp)] at hflatten ⊢
  simp only [List.flatten_cons] at hflatten
  simpa [sniff, hblank, hbracket] using hflatten

theorem ofPath?_ne_array {p : Path} (h : p.extension? ≠ some "json") :
  ofPath? p = some .lines ∨ ofPath? p = none
  := by
  rw [ofPath?]
  split
  · next heq => exact absurd heq h
  · exact Or.inl rfl
  · exact Or.inl rfl
  · exact Or.inr rfl

end Layout

namespace Corpus

/-- A file is read as lines if neither its name nor its first byte tells otherwise. -/
theorem load_of_lines {p : Path} (hp : p.extension? ≠ some "json") {t : Tree} {bytes : Bytes}
    (hread : t.read p = .ok bytes)
    (hsniff : Layout.sniff (Layout.pieces Layout.pieceSize bytes) = (.lines, bytes))
    (limit : Float) :
  onTree (load p limit) t = (ofLines limit bytes, t)
  := by
  have hfile : onTree (Storage.located p (Storage.read p)) t = (.ok bytes, t) := by
    rw [onTree_located_read, hread]
    rfl
  rw [load]
  rcases Layout.ofPath?_ne_array hp with hlayout | hlayout
  · rw [hlayout]
    simp only [onTree_bind, hfile, onTree_mk_pure]
  · rw [hlayout]
    simp only [onTree_bind, hfile, hsniff, onTree_mk_pure, ofBytes]

/-- The records of a corpus that was read have different identifiers. -/
theorem nodup_ids_of_ofRows {limit : Float} {rows : List (Option Value)} {c : Corpus}
    (h : ofRows limit rows = .ok c) :
  (c.records.map Record.id).Nodup
  := by
  rw [ofRows, Collector.finish] at h
  split at h
  · simp at h
  · simp only at h
    split at h
    · simp at h
    · simp only [Except.ok.injEq] at h
      rw [← h]
      exact (Collector.nodup_ids_collect rows).1

theorem nodup_ids_of_ofBytes (source : Path) (limit : Float) (layout : Layout) {bytes : Bytes}
    {c : Corpus} (h : ofBytes source limit layout bytes = .ok c) :
  (c.records.map Record.id).Nodup
  := by
  have hschema {x : Except SchemaFault Corpus} (hx : x.mapError Fault.schema = .ok c) :
      x = .ok c := by
    cases x <;> simp_all [Except.mapError]
  cases layout with
  | array =>
    rw [ofBytes, ofArray] at h
    split at h
    · simp at h
    · exact nodup_ids_of_ofRows (hschema h)
    · simp at h
  | lines => exact nodup_ids_of_ofRows (hschema h)

/-- Reading a corpus leaves the tree as it is. -/
theorem load_tree (source : Path) (limit : Float) (t : Tree) :
  (onTree (load source limit) t).2 = t
  := by
  have hread {ε : Type} (f : FileFault → ε) {α : Type} (k : Bytes → Except ε α) :
      (onTree ((Storage.read source).adapt f >>= fun bytes => ExceptT.mk (pure (k bytes))) t).2
        = t := by
    rw [onTree_bind, onTree_adapt, onTree_read]
    cases t.read source <;> rfl
  rw [load]
  split
  · exact hread _ _
  · exact hread _ _
  · exact hread _ _

theorem nodup_ids_of_load {source : Path} {limit : Float} {t u : Tree} {c : Corpus}
    (h : onTree (load source limit) t = (.ok c, u)) :
  (c.records.map Record.id).Nodup
  := by
  rw [load] at h
  split at h
  · obtain ⟨bytes, t', -, h⟩ := onTree_bind_eq_ok_iff.mp h
    exact nodup_ids_of_ofBytes source limit .array (congrArg Prod.fst h)
  · obtain ⟨bytes, t', -, h⟩ := onTree_bind_eq_ok_iff.mp h
    exact nodup_ids_of_ofBytes source limit .lines (congrArg Prod.fst h)
  · obtain ⟨bytes, t', -, h⟩ := onTree_bind_eq_ok_iff.mp h
    exact nodup_ids_of_ofBytes source limit _ (congrArg Prod.fst h)

end Corpus

/-! ### Labelled corpora -/

namespace LabeledCorpus

/-- The bytes of a file of labelled records. -/
def bytes (c : LabeledCorpus) : Bytes :=
  encode (String.ofList c.lines)

/-- The texts on the lines of a file of labelled records. -/
def texts (c : LabeledCorpus) : List String :=
  c.records.map fun r => String.ofList (compact (row c.rules r))

theorem not_mem_text (rules : RuleSet) (r : Record) :
  0x0A ∉ encode (String.ofList (compact (row rules r)))
  := by
  apply Text.lineFeed_not_mem_encode
  intro hmem
  exact absurd (Json.le_toNat_of_mem_compact hmem) (by decide)

/-- A labelled corpus is laid out one row to a line, each line ended. -/
theorem isLayout_bytes (c : LabeledCorpus) :
  IsLayout c.texts c.bytes
  := by
  obtain ⟨⟨records, rows⟩, rules⟩ := c
  simp only [texts, bytes, lines, LabeledCorpus.records]
  induction records with
  | nil =>
    rw [List.flatMap_nil, Text.encode_nil]
    exact IsLayout.lastBlank ⟨by simp, rfl⟩
  | cons r records ih =>
    have hbytes : encode (String.ofList ((r :: records).flatMap fun r =>
        compact (row rules r) ++ ['\n']))
        = encode (String.ofList (compact (row rules r))) ++ LineEnd.lineFeed.bytes
          ++ encode (String.ofList (records.flatMap fun r => compact (row rules r) ++ ['\n'])) := by
      rw [List.flatMap_cons, String.ofList_append, String.ofList_append, Text.encode_append,
        Text.encode_append]
      rfl
    rw [hbytes]
    exact IsLayout.row _ .lineFeed ih

theorem rowsOfLines_bytes (c : LabeledCorpus) :
  Corpus.rowsOfLines c.bytes = c.records.map fun r => some (row c.rules r).settle
  := by
  have htexts : ∀ t ∈ c.texts, 0x0A ∉ encode t ∧ ∃ v, Json.ofBytes? (encode t) = some v := by
    intro t ht
    obtain ⟨r, -, rfl⟩ := List.mem_map.mp ht
    exact ⟨not_mem_text c.rules r, row c.rules r, ofBytes?_row c.rules r⟩
  rw [Corpus.rowsOfLines_of_isLayout htexts c.isLayout_bytes, texts, List.map_map]
  apply List.map_congr_left
  intro r hr
  rw [Function.comp_apply, rowOfText_row]

theorem sniff_bytes (c : LabeledCorpus) :
  Layout.sniff (Layout.pieces Layout.pieceSize c.bytes) = (.lines, c.bytes)
  := by
  rw [bytes, lines]
  cases c.records with
  | nil =>
    rw [List.flatMap_nil, Text.encode_nil, Layout.pieces]
    rfl
  | cons r records =>
    have hbrace : ∃ cs, (r :: records).flatMap (fun r => compact (row c.rules r) ++ ['\n'])
        = '{' :: cs := by
      exact ⟨_, rfl⟩
    obtain ⟨cs, hcs⟩ := hbrace
    have hbytes : encode (String.ofList ('{' :: cs)) = 0x7B :: encode (String.ofList cs) := by
      rw [Text.encode_ofList, Text.encode_ofList, List.flatMap_cons]
      rfl
    rw [hcs, hbytes]
    exact Layout.sniff_pieces_of_cons (by decide) _ (by decide) (by decide)

/-- A labelled corpus with different identifiers is read back from its file. -/
theorem ofLines_bytes (c : LabeledCorpus) (hnodup : (c.records.map Record.id).Nodup)
    {limit : Float} (hlimit : 0 ≤ limit) :
  Corpus.ofLines limit c.bytes = .ok (Corpus.ofRecords c.records)
  := by
  have hrows : List.Forall₂ Row.Holds (c.records.map fun r => some (row c.rules r).settle)
      c.records := by
    rw [List.forall₂_map_left_iff, List.forall₂_same]
    intro r hr
    exact holds_row c.rules r
  rw [Corpus.ofLines, rowsOfLines_bytes, Corpus.ofRows_of_holds hrows hnodup hlimit]
  rfl

/-- A labelled corpus that was written is read again without loss: no row is skipped, records
and labels are the same in the same order, and writing once more gives the same bytes. -/
theorem load_writeLines {source : Path} {limit : Float} {t₀ t₁ t u : Tree} {corpus : Corpus}
    (hcorpus : onTree (Corpus.load source limit) t₀ = (.ok corpus, t₁)) (rules : RuleSet)
    {p : Path} (hp : p.extension? ≠ some "json")
    (hwrite : onTree (writeLines ⟨corpus, rules⟩ p) t = (.ok (), u)) {limit' : Float}
    (hlimit : 0 ≤ limit') :
  ∃ reloaded bytes, onTree (load rules p limit') u = (.ok reloaded, u)
    ∧ reloaded.corpus.rows.skipped = 0
    ∧ reloaded.records = corpus.records
    ∧ reloaded.labels = labels ⟨corpus, rules⟩
    ∧ u.read p = .ok bytes
    ∧ ∀ q v w, onTree (reloaded.writeLines q) v = (.ok (), w) → w.read q = .ok bytes
  := by
  let written : LabeledCorpus := ⟨corpus, rules⟩
  have hnodup : (written.records.map Record.id).Nodup := Corpus.nodup_ids_of_load hcorpus
  have hread : u.read p = .ok written.bytes := Storage.read_writeAtomic hwrite
  have hload : onTree (Corpus.load p limit') u = (.ok (Corpus.ofRecords corpus.records), u) := by
    rw [Corpus.load_of_lines hp hread written.sniff_bytes, written.ofLines_bytes hnodup hlimit]
    rfl
  refine ⟨⟨Corpus.ofRecords corpus.records, rules⟩, written.bytes, ?_, rfl, rfl, rfl, hread, ?_⟩
  · rw [load, onTree_bind, hload]
    rfl
  · intro q v w hagain
    exact Storage.read_writeAtomic hagain

/-- A table of one row, with a line feed in its identifier and the text of a program. -/
def oneRow : Tree :=
  ⟨[(["rows.jsonl"], .file (encode ("\x7b\"id\":\"a\\n\",\"category\":\"b\",\"has_rust\":true,"
    ++ "\"error_codes\":[],\"python_code\":\"async def f(): pass\"\x7d")))]⟩

/-- The record of the row. -/
def oneRecord : Record :=
  ⟨"a\n", "b", true, none, none, [], .ofPredicate (· = .asyncAwait)⟩

/-- A record whose features were found in the text of its program, written and read again. -/
theorem load_writeLines_oneRow :
  onTree (Corpus.load ⟨"rows.jsonl"⟩ 0) oneRow = (.ok (.ofRecords [oneRecord]), oneRow)
    ∧ ∃ u reloaded bytes,
      onTree (writeLines ⟨.ofRecords [oneRecord], .default⟩ ⟨"labels"⟩) oneRow = (.ok (), u)
        ∧ onTree (load .default ⟨"labels"⟩ 0) u = (.ok reloaded, u)
        ∧ reloaded.corpus.rows.skipped = 0
        ∧ reloaded.records = [oneRecord]
        ∧ reloaded.labels = [⟨"a\n", .high, "async_pattern"⟩]
        ∧ u.read ⟨"labels"⟩ = .ok bytes
        ∧ ∀ q v w, onTree (reloaded.writeLines q) v = (.ok (), w) → w.read q = .ok bytes
  := by
  have hcorpus : onTree (Corpus.load ⟨"rows.jsonl"⟩ 0) oneRow
      = (.ok (.ofRecords [oneRecord]), oneRow) := by
    decide +kernel
  have hwrite : (onTree (writeLines ⟨.ofRecords [oneRecord], .default⟩ ⟨"labels"⟩) oneRow).1
      = .ok () := by
    decide +kernel
  have hlimit : (0 : Float) ≤ 0 := by
    decide +kernel
  obtain ⟨reloaded, bytes, hload, hskipped, hrecords, hlabels, hread, hagain⟩ :=
    load_writeLines hcorpus .default (p := ⟨"labels"⟩) (by decide +kernel) (Prod.ext hwrite rfl)
      hlimit
  refine ⟨hcorpus, _, reloaded, bytes, Prod.ext hwrite rfl, hload, hskipped, hrecords, ?_, hread,
    hagain⟩
  rw [hlabels]
  decide +kernel

end LabeledCorpus

end CorpusAudit
