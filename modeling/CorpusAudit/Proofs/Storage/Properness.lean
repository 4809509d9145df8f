import CorpusAudit.Proofs.Storage.Listing
import CorpusAudit.Proofs.Storage.Searching

/-!
# Proper trees

In a proper tree nothing is twice in one place, and paths can lead to every name.  The
operations on files keep trees proper (`isKept_isProper`).  To the names in a directory that
paths can lead to, a search goes on by paths that differ in these names only
(`exists_start`).
-/

namespace CorpusAudit

namespace Tree

open CorpusAudit.Path (ofNames)

variable {t : Tree} {p q : Path} {l : Location} {name : String}

/-- Nothing is twice in one place, and paths can lead to every name. -/
structure IsProper (t : Tree) : Prop where
  distinct : (t.entries.map (·.1)).Nodup
  storable : ∀ e ∈ t.entries, ∀ name ∈ e.1.getLast?, IsStorable name

/-! ### Names in a proper tree -/

namespace IsProper

theorem nodup_names (ht : t.IsProper) (l : Location) :
  (t.names l).Nodup
  := by
  rw [names, List.Nodup, List.pairwise_filterMap]
  have hdistinct := (List.pairwise_map.mp ht.distinct).filter
    fun e => e.1.dropLast = l && e.1 ≠ []
  apply hdistinct.imp_of_mem
  intro a b ha hb hne name hname name' hname' heq
  -- one name in one directory is one place
  apply hne
  rw [inside_iff.mp ⟨(List.mem_filter.mp ha).2, hname⟩,
    inside_iff.mp ⟨(List.mem_filter.mp hb).2, hname'⟩, heq]

theorem isStorable (ht : t.IsProper) (h : name ∈ t.names l) :
  IsStorable name
  := by
  obtain ⟨n, hn⟩ := mem_names_iff.mp h
  exact ht.storable _ hn name (by simp)

end IsProper

/-- The operations on files keep trees proper. -/
theorem isKept_isProper :
  IsKept IsProper
  := by
  have herase {t : Tree} (l : Location) (ht : t.IsProper) : (t.erase l).IsProper :=
    ⟨ht.distinct.sublist (List.filter_sublist.map _),
      fun e he => ht.storable e (List.mem_filter.mp he).1⟩
  refine ⟨?put, herase⟩
  intro t l name n ht hname
  constructor
  case distinct =>
    have hnone : l ++ [name] ∉ (t.erase (l ++ [name])).entries.map (·.1) := by simp [Tree.erase]
    rw [Tree.put, List.map_append, List.map_singleton, ← List.concat_eq_append]
    exact (herase _ ht).distinct.concat hnone
  case storable =>
    intro e he
    rcases List.mem_append.mp he with he | he
    · exact (herase _ ht).storable e he
    · obtain rfl := List.mem_singleton.mp he
      simpa using hname

/-! ### Searches for names -/

/-- From a directory a search goes on to names by paths that differ in the names only, and these
paths lead to the names in the directory, unless they are too long. -/
theorem exists_start (hdir : t.resolve p = .ok (l, .directory)) (hq : p.searched? = some q) :
  ∃ start, ∀ name, IsName name → IsStorable name → q.descend name = some ⟨start ++ name⟩
    ∧ ∀ place, t.place ⟨start ++ name⟩ = .ok place
      ↔ (start ++ name).utf8ByteSize ≤ longestPath ∧ place = .entry l name false
  := by
  obtain ⟨ms, hsublist, hleads, hsearch⟩ := exists_descend hq
  refine ⟨(ofNames p.isAbsolute (ms ++ [""])).text, fun name hname hstorable => ?_⟩
  obtain ⟨hnext, hnames⟩ := hsearch name hname
  rw [← Path.text_ofNames_concat]
  refine ⟨hnext, fun place => ?_⟩
  have hdirectory : ms.foldlM t.enter [] = .ok l := by
    rw [hleads t, foldlM_enter_of_resolve hdir]
  have hfollowable : '\x00' ∉ (ofNames p.isAbsolute (ms ++ [name])).text.toList := by
    obtain ⟨_, hplace, -⟩ := bind_eq_ok_iff.mp hdir
    have hpath := (place_eq_ok_iff.mp hplace).1.1
    rw [← Path.ofNames_names p, Path.mem_text_ofNames_iff (by decide)] at hpath
    rw [Path.mem_text_ofNames_iff (by decide)]
    rintro ⟨m, hm, hnul⟩
    rcases List.mem_append.mp hm with hm | hm
    · exact hpath ⟨m, (hsublist.trans List.filter_sublist).subset hm, hnul⟩
    · exact hstorable.followable (List.mem_singleton.mp hm ▸ hnul)
  have hnonempty : (ofNames p.isAbsolute (ms ++ [name])).text ≠ "" :=
    Path.text_ofNames_ne_empty _ (by simp) hname.nonempty
  rw [place_eq_ok_iff_of_names hname hnames]
  simp [IsFollowable, hfollowable, hnonempty, hstorable.short, hdirectory]

end Tree

end CorpusAudit
