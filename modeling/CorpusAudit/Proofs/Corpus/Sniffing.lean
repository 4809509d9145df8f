import CorpusAudit.Proofs.Corpus.Layouts
import CorpusAudit.Proofs.Json.Consuming
import CorpusAudit.Proofs.Label.Reloading

/-!
# Telling the layout of a table

Where the name of a file does not tell its layout, its first pieces are looked at, and those
that are blank altogether are let go before the rest is read (`Layout.LetsGo`).  How many
bytes these are depends on where the file is cut into pieces; but blank bytes at the front of
a table, other than form feeds, change nothing in either layout, even if a line is cut in two.
So the corpus is that of the whole file in the layout that its first byte tells, wherever the
file is cut (`Corpus.ofPieces_eq_ofWhole`).
-/

namespace CorpusAudit

open Text (isBlankByte)

/-- A fault with an input, as one with the input at a place. -/
def Fault.relocate (p : Path) : Fault → Fault
  | .input _ cause => .input p cause
  | e => e

/-! ### Blanks in front -/

variable {b : UInt8}

/-- A blank byte in front of a document, other than a form feed. -/
theorem Json.ofBytes?_cons_blank (hblank : isBlankByte b = true) (hfeed : b ≠ 0x0C)
    (bytes : Bytes) :
  ofBytes? (b :: bytes) = ofBytes? bytes
  := by
  have hchar : b.toNat < 128 ∧ isBlank (some (Text.characterOf b)) = true := by
    simp only [isBlankByte, Bool.or_eq_true, decide_eq_true_eq] at hblank
    rcases hblank with (((rfl | rfl) | rfl) | rfl) | rfl
    · decide
    · decide
    · decide
    · exact absurd rfl hfeed
    · decide
  rw [ofBytes?, ofBytes?, Text.symbols_cons hchar.1, read?_cons_blank hchar.2]

namespace Corpus

/-- A blank byte in front of a line, other than a form feed. -/
theorem rowsOfLine_cons_blank (hblank : isBlankByte b = true) (hfeed : b ≠ 0x0C) (line : Bytes) :
  rowsOfLine (b :: line) = rowsOfLine line
  := by
  rw [rowsOfLine, rowsOfLine, List.all_cons, hblank, Bool.true_and,
    Json.ofBytes?_cons_blank hblank hfeed]

theorem rowsOfLines_cons_blank (hblank : isBlankByte b = true) (hfeed : b ≠ 0x0C)
    (bytes : Bytes) :
  rowsOfLines (b :: bytes) = rowsOfLines bytes
  := by
  by_cases hb : b = 0x0A
  · subst hb
    exact rowsOfLines_append List.not_mem_nil bytes
  · have hcons {line : Bytes} (hline : 0x0A ∉ line) : 0x0A ∉ b :: line := by
      simpa [Ne.symm hb] using hline
    by_cases hmem : 0x0A ∈ bytes
    · obtain ⟨line, more, rfl, hline⟩ := List.eq_append_cons_of_mem hmem
      rw [← List.cons_append, rowsOfLines_append (hcons hline), rowsOfLines_append hline,
        rowsOfLine_cons_blank hblank hfeed]
    · rw [rowsOfLines_of_not_mem (hcons hmem), rowsOfLines_of_not_mem hmem,
        rowsOfLine_cons_blank hblank hfeed]

variable (p q : Path) (limit : Float) (layout : Layout)

/-- Blank bytes in front of a table, other than form feeds, change nothing. -/
theorem ofBytes_append_blank {blanks : Bytes} (hblank : ∀ b ∈ blanks, isBlankByte b = true)
    (hfeed : 0x0C ∉ blanks) (bytes : Bytes) :
  ofBytes p limit layout (blanks ++ bytes) = ofBytes p limit layout bytes
  := by
  induction blanks with
  | nil => rfl
  | cons b blanks ih =>
    have hb : isBlankByte b = true := hblank b List.mem_cons_self
    have hne : b ≠ 0x0C := fun heq => hfeed (heq ▸ List.mem_cons_self)
    rw [← ih (fun c hc => hblank c (List.mem_cons_of_mem b hc))
      fun hmem => hfeed (List.mem_cons_of_mem b hmem), List.cons_append]
    cases layout with
    | array => rw [ofBytes, ofBytes, ofArray, ofArray, Json.ofBytes?_cons_blank hb hne]
    | lines => rw [ofBytes, ofBytes, ofLines, ofLines, rowsOfLines_cons_blank hb hne]

/-- Only faults of an input tell where a table is. -/
theorem ofBytes_relocate (bytes : Bytes) :
  ofBytes p limit layout bytes = (ofBytes q limit layout bytes).mapError (Fault.relocate p)
  := by
  have hschema (x : Except SchemaFault Corpus) :
      x.mapError Fault.schema = (x.mapError Fault.schema).mapError (Fault.relocate p) := by
    cases x <;> rfl
  cases layout with
  | array =>
    rw [ofBytes, ofBytes, ofArray, ofArray]
    split
    · rfl
    · apply hschema
    · rfl
  | lines => apply hschema

end Corpus

/-! ### Pieces -/

namespace Layout

/-- The layout told by the first byte of a table that is not blank. -/
def ofContent (bytes : Bytes) : Layout :=
  if bytes.find? (fun b => !isBlankByte b) = some 0x5B then .array else .lines

/-- The pieces that are let go and those that are left to read: the former are blank
altogether, and the first of the latter is not. -/
structure LetsGo (pieces gone kept : List Bytes) : Prop where
  append : pieces = gone ++ kept
  blank : ∀ piece ∈ gone, ∀ b ∈ piece, isBlankByte b = true
  first : ∀ piece ∈ kept.head?, ∃ b ∈ piece, isBlankByte b = false
  sniff : sniff pieces = (ofContent pieces.flatten, kept.flatten)

/-- The search comes to an end, and finds the layout of the whole. -/
theorem exists_letsGo (pieces : List Bytes) :
  ∃ gone kept, LetsGo pieces gone kept
  := by
  induction pieces with
  | nil => exact ⟨[], [], rfl, by simp, by simp, rfl⟩
  | cons piece more ih =>
    cases hfind : piece.find? fun b => !isBlankByte b with
    | some b =>
      refine ⟨[], piece :: more, rfl, by simp, ?_, ?_⟩
      · intro kept hkept
        obtain rfl := Option.some.inj hkept
        exact ⟨b, List.mem_of_find?_eq_some hfind, by simpa using List.find?_some hfind⟩
      · simp [Layout.sniff, ofContent, hfind]
    | none =>
      obtain ⟨gone, kept, happend, hblank, hfirst, hsniff⟩ := ih
      have hpiece : ∀ b ∈ piece, isBlankByte b = true := by
        simpa using List.find?_eq_none.mp hfind
      refine ⟨piece :: gone, kept, by rw [happend, List.cons_append], ?_, hfirst, ?_⟩
      · intro q hq
        rcases List.mem_cons.mp hq with rfl | hq
        · exact hpiece
        · exact hblank q hq
      · rw [Layout.sniff, hfind]
        simp only
        rw [hsniff, ofContent, ofContent, List.flatten_cons, List.find?_append, hfind,
          Option.none_or]

variable {pieces gone kept : List Bytes}

/-- Every piece that is let go has a byte of its own. -/
theorem LetsGo.length_gone_le (h : LetsGo pieces gone kept) (hne : ∀ piece ∈ pieces, piece ≠ []) :
  gone.length ≤ pieces.flatten.length
  := by
  have hgone : gone.length ≤ gone.flatten.length := by
    have hsum : ∀ n ∈ gone.map List.length, 1 ≤ n := by
      intro n hn
      obtain ⟨piece, hpiece, rfl⟩ := List.mem_map.mp hn
      apply List.length_pos_iff.mpr
      apply hne
      rw [h.append]
      exact List.mem_append_left kept hpiece
    have hlength := List.length_le_sum_of_one_le _ hsum
    rwa [List.length_map, ← List.length_flatten] at hlength
  rw [h.append, List.flatten_append, List.length_append]
  omega

/-- What is let go is blank at the front of the whole. -/
theorem LetsGo.flatten_gone_subset (h : LetsGo pieces gone kept) :
  gone.flatten ⊆ pieces.flatten.takeWhile isBlankByte
  := by
  have hblank : ∀ b ∈ gone.flatten, isBlankByte b = true := by
    intro b hb
    obtain ⟨piece, hpiece, hb⟩ := List.mem_flatten.mp hb
    exact h.blank piece hpiece b hb
  rw [h.append, List.flatten_append, List.takeWhile_append_of_pos hblank]
  apply List.subset_append_left

end Layout

namespace Corpus

/-- The corpus that is read from the pieces of a file whose name does not tell its layout. -/
def ofPieces (source : Path) (limit : Float) (pieces : List Bytes) : Except Fault Corpus :=
  ofBytes source limit (Layout.sniff pieces).1 (Layout.sniff pieces).2

/-- The corpus of a whole table in the layout that its first byte tells. -/
def ofWhole (source : Path) (limit : Float) (bytes : Bytes) : Except Fault Corpus :=
  if bytes.find? (fun b => !isBlankByte b) = some 0x5B then ofArray source limit bytes
  else ofLines limit bytes

/-- The name of a table that is read from a stream. -/
def stream : Path :=
  ⟨"<stream>"⟩

theorem load_eq_ofPieces {p : Path} (hp : Layout.ofPath? p = none) {t : Tree} {bytes : Bytes}
    (hread : t.read p = .ok bytes) (limit : Float) :
  onTree (load p limit) t = (ofPieces p limit (Layout.pieces Layout.pieceSize bytes), t)
  := by
  have hfile : onTree (Storage.located p (Storage.read p)) t = (.ok bytes, t) := by
    rw [onTree_located_read, hread]
    rfl
  rw [load, hp]
  simp only [onTree_bind, hfile, onTree_mk_pure]
  rfl

theorem ofBytes_ofContent (source : Path) (limit : Float) (bytes : Bytes) :
  ofBytes source limit (Layout.ofContent bytes) bytes = ofWhole source limit bytes
  := by
  rw [ofWhole, Layout.ofContent]
  split <;> rfl

/-- What is read after pieces were let go is what the whole holds. -/
theorem ofPieces_of_letsGo {pieces gone kept : List Bytes} (h : Layout.LetsGo pieces gone kept)
    (hfeed : 0x0C ∉ pieces.flatten.takeWhile isBlankByte) (source : Path) (limit : Float) :
  ofPieces source limit pieces = ofWhole source limit pieces.flatten
  := by
  have hgone : ∀ b ∈ gone.flatten, isBlankByte b = true := by
    intro b hb
    exact List.mem_takeWhile_imp (h.flatten_gone_subset hb)
  rw [ofPieces, h.sniff, ← ofBytes_ofContent]
  dsimp only
  rw [← ofBytes_append_blank source limit _ hgone fun hmem => hfeed (h.flatten_gone_subset hmem),
    ← List.flatten_append, ← h.append]

/-- A table whose name does not tell its layout, with no form feed among the blank bytes at its
front, is read as an array if its first byte that is not blank is an opening bracket, and as
lines otherwise, also if there is no such byte.  This holds wherever the table is cut into
pieces, of which finitely many are let go, and so for the pieces in which a file is taken; only
the place of the file is told in the faults of its input. -/
theorem ofPieces_eq_ofWhole {bytes : Bytes} (hfeed : 0x0C ∉ bytes.takeWhile isBlankByte)
    (p : Path) (limit : Float) :
  (∀ pieces, (∀ piece ∈ pieces, piece ≠ []) → pieces.flatten = bytes →
      (∃ gone kept, Layout.LetsGo pieces gone kept ∧ gone.length ≤ bytes.length)
      ∧ ofPieces p limit pieces = (ofWhole stream limit bytes).mapError (Fault.relocate p))
    ∧ ∀ t, Layout.ofPath? p = none → t.read p = .ok bytes →
      onTree (load p limit) t = ((ofWhole stream limit bytes).mapError (Fault.relocate p), t)
  := by
  have hpieces {pieces : List Bytes} (hflatten : pieces.flatten = bytes) :
      ofPieces p limit pieces = (ofWhole stream limit bytes).mapError (Fault.relocate p) := by
    subst hflatten
    obtain ⟨gone, kept, h⟩ := Layout.exists_letsGo pieces
    rw [ofPieces_of_letsGo h hfeed, ← ofBytes_ofContent, ← ofBytes_ofContent,
      ofBytes_relocate p stream]
  constructor
  · rintro pieces hne rfl
    obtain ⟨gone, kept, h⟩ := Layout.exists_letsGo pieces
    exact ⟨⟨gone, kept, h, h.length_gone_le hne⟩, hpieces rfl⟩
  · intro t hp hread
    rw [load_eq_ofPieces hp hread, hpieces (Layout.flatten_pieces (by decide) bytes)]

/-- A row after blank bytes, its line being cut in two. -/
def cutLine : List Bytes :=
  [[0x0D, 0x0A, 0x20], [0x09], [0x20] ++ Text.encode ("\x7b\"id\":\"a\",\"category\":\"b\","
    ++ "\"has_rust\":true,\"error_codes\":[],\"feature_flags\":\x7b\x7d\x7d")]

/-- The piece with the start of the line is let go, and the row is read all the same; and what is
told of an array that is not closed is told of its file. -/
theorem ofPieces_eq_ofWhole_cutLine :
  0x0C ∉ cutLine.flatten.takeWhile isBlankByte ∧ (∀ piece ∈ cutLine, piece ≠ [])
    ∧ (Layout.sniff cutLine).2 = cutLine.getLast?.getD []
    ∧ ofPieces ⟨"rows"⟩ 0 cutLine
      = .ok (.ofRecords [⟨"a", "b", true, none, none, [], .empty⟩])
    ∧ onTree (load ⟨"rows"⟩ 0) ⟨[(["rows"], .file cutLine.flatten)]⟩
      = (.ok (.ofRecords [⟨"a", "b", true, none, none, [], .empty⟩]),
        ⟨[(["rows"], .file cutLine.flatten)]⟩)
    ∧ ofWhole stream 0 [0x20, 0x5B] = .error (.input stream .json)
    ∧ ofPieces ⟨"rows"⟩ 0 [[0x20], [0x5B]] = .error (.input ⟨"rows"⟩ .json)
  := by
  have hfeed : 0x0C ∉ cutLine.flatten.takeWhile isBlankByte := by decide +kernel
  have hne : ∀ piece ∈ cutLine, piece ≠ [] := by decide +kernel
  have hwhole : ofWhole stream 0 cutLine.flatten
      = .ok (.ofRecords [⟨"a", "b", true, none, none, [], .empty⟩]) := by
    decide +kernel
  have hfault : ofWhole stream 0 [0x20, 0x5B] = .error (.input stream .json) := by decide +kernel
  obtain ⟨hpieces, hload⟩ := ofPieces_eq_ofWhole hfeed ⟨"rows"⟩ 0
  rw [hwhole] at hpieces hload
  refine ⟨hfeed, hne, by decide +kernel, (hpieces cutLine hne rfl).2,
    hload _ (by decide +kernel) (by decide +kernel), hfault, ?_⟩
  have hblank : 0x0C ∉ [0x20, 0x5B].takeWhile isBlankByte := by decide +kernel
  have hbracket := ((ofPieces_eq_ofWhole hblank ⟨"rows"⟩ 0).1
    [[0x20], [0x5B]] (by decide) rfl).2
  rw [hfault] at hbracket
  exact hbracket

end Corpus

end CorpusAudit
