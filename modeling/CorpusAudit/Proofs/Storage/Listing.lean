import CorpusAudit.Proofs.Storage.Frames

/-!
# What is listed in a directory

The names that are listed in a directory are those of the nodes there (`isSome_node?_iff`).
What a tree keeps when something is put into it or erased, it keeps under all operations
(`IsKept`); so its names have no separator, if they had none before (`IsNamed`).  The name of an
artifact that was written is listed once (`place_writeAtomic`).
-/

namespace CorpusAudit

namespace Tree

variable {t u : Tree} {p q : Path} {l : Location} {name : String} {n : Node}

/-! ### Names in a directory -/

/-- The names of what is directly inside a directory. -/
def names (t : Tree) (l : Location) : List String :=
  (t.entries.filter fun e => e.1.dropLast = l && e.1 ≠ []).filterMap (·.1.getLast?)

theorem list_of_resolve (h : t.resolve p = .ok (l, .directory)) :
  t.list p = .ok (t.names l)
  := by
  simp [list, h, names, bind, Except.bind]

theorem inside_iff {e : Location × Node} :
  (e.1.dropLast = l && e.1 ≠ []) = true ∧ e.1.getLast? = some name ↔ e.1 = l ++ [name]
  := by
  constructor
  · rintro ⟨hinside, hlast⟩
    obtain ⟨hdrop, -⟩ : e.1.dropLast = l ∧ e.1 ≠ [] := by simpa using hinside
    rw [← hdrop]
    exact (List.dropLast_append_getLast? name hlast).symm
  · intro he
    simp [he]

theorem mem_names_iff :
  name ∈ t.names l ↔ ∃ n, (l ++ [name], n) ∈ t.entries
  := by
  simp only [names, List.mem_filterMap, List.mem_filter]
  constructor
  · rintro ⟨e, ⟨he, hinside⟩, hlast⟩
    exact ⟨e.2, inside_iff.mp ⟨hinside, hlast⟩ ▸ he⟩
  · rintro ⟨n, hn⟩
    obtain ⟨hinside, hlast⟩ := inside_iff.mpr (rfl : (l ++ [name], n).1 = l ++ [name])
    exact ⟨_, ⟨hn, hinside⟩, hlast⟩

/-- What is listed in a directory is what is there. -/
theorem isSome_node?_iff :
  (t.node? (l ++ [name])).isSome = true ↔ name ∈ t.names l
  := by
  have hnode : t.node? (l ++ [name]) = (t.entries.find? (·.1 = l ++ [name])).map (·.2) := by
    cases l <;> rfl
  rw [hnode, Option.isSome_map, List.find?_isSome, mem_names_iff]
  constructor
  · rintro ⟨⟨k, n⟩, hmem, hk⟩
    obtain rfl : k = l ++ [name] := by simpa using hk
    exact ⟨n, hmem⟩
  · rintro ⟨n, hn⟩
    exact ⟨_, hn, by simp⟩

theorem exists_node_of_mem (h : name ∈ t.names l) :
  ∃ n, t.node? (l ++ [name]) = some n
  := Option.isSome_iff_exists.mp (isSome_node?_iff.mpr h)

theorem names_put (t : Tree) (l : Location) (name : String) (n : Node) :
  (t.put (l ++ [name]) n).names l = (t.erase (l ++ [name])).names l ++ [name]
  := by
  simp [names, put]

/-- What was put at a place is listed once. -/
theorem count_names_put (t : Tree) (l : Location) (name : String) (n : Node) :
  ((t.put (l ++ [name]) n).names l).count name = 1
  := by
  have hnone : name ∉ (t.erase (l ++ [name])).names l := by
    intro hmem
    obtain ⟨m, hm⟩ := exists_node_of_mem hmem
    simp [node?_erase_self] at hm
  rw [names_put, List.count_append, List.count_eq_zero_of_not_mem hnone, List.count_singleton_self]

/-! ### What all operations keep -/

/-- A name that a path can lead to. -/
structure IsStorable (name : String) : Prop where
  separated : '/' ∉ name.toList
  followable : '\x00' ∉ name.toList
  short : name.utf8ByteSize ≤ longestName

instance : Decidable (IsStorable name) :=
  decidable_of_iff ('/' ∉ name.toList ∧ '\x00' ∉ name.toList ∧ name.utf8ByteSize ≤ longestName)
    ⟨fun h => ⟨h.1, h.2.1, h.2.2⟩, fun h => ⟨h.separated, h.followable, h.short⟩⟩

theorem mem_names_of_place {folder : Location} {closed : Bool}
    (h : t.place p = .ok (.entry folder name closed)) :
  name ∈ p.names
  := by
  obtain ⟨-, -, -, before, k, hnames, -⟩ := names_of_place_entry h
  simp [hnames]

/-- The last name of a path can be stored. -/
theorem isStorable_of_place {folder : Location} {closed : Bool}
    (h : t.place p = .ok (.entry folder name closed)) :
  IsStorable name
  where
    separated := Path.separator_not_mem (mem_names_of_place h)
    followable := by
      intro hnul
      apply (place_eq_ok_iff.mp h).1.1
      rw [← Path.ofNames_names p, Path.mem_text_ofNames_iff (by decide)]
      exact ⟨name, mem_names_of_place h, hnul⟩
    short := size_of_place_entry h

/-- A property that a tree keeps when something is put into it under a name that a path can lead
to, and when something is erased. -/
structure IsKept (P : Tree → Prop) : Prop where
  put : ∀ {t : Tree} (l : Location) {name : String} (n : Node), P t → IsStorable name →
    P (t.put (l ++ [name]) n)
  erase : ∀ {t : Tree} (l : Location), P t → P (t.erase l)

namespace IsKept

variable {P : Tree → Prop}

theorem createDirectory (hP : IsKept P) (h : t.createDirectory p = .ok u) (ht : P t) :
  P u
  := by
  obtain ⟨folder, name, closed, hplace, -, rfl⟩ := createDirectory_eq_ok h
  exact hP.put folder _ ht (isStorable_of_place hplace)

theorem write (hP : IsKept P) {c : Bytes} (h : t.write p c = .ok u) (ht : P t) :
  P u
  := by
  obtain ⟨folder, name, hplace, -, rfl⟩ := write_eq_ok h
  exact hP.put folder _ ht (isStorable_of_place hplace)

theorem remove (hP : IsKept P) (h : t.remove p = .ok u) (ht : P t) :
  P u
  := by
  obtain ⟨folder, name, closed, -, -, rfl⟩ := remove_eq_ok h
  exact hP.erase _ ht

theorem move (hP : IsKept P) (h : t.move p q = .ok u) (ht : P t) :
  P u
  := by
  obtain ⟨folder, name, folder', name', c, -, hgoal, -, -, rfl⟩ := move_eq_ok h
  exact hP.put folder' _ (hP.erase _ ht) (isStorable_of_place hgoal)

/-- Writing an artifact keeps what the operations keep, whether it succeeds or fails. -/
theorem writeAtomic (hP : IsKept P) (path : Path) (filling : Filling) :
  Leads (fun t u => P t → P u)
    (Storage.writeAtomic path filling : ExceptT Fault (StateM Tree) Unit)
  := by
  have hframe : IsFrame fun t u : Tree => P t → P u :=
    ⟨fun _ ht => ht, fun hst htu hs => htu (hst hs)⟩
  exact Storage.leads_writeAtomic hframe (fun _ _ _ => hP.createDirectory)
    (fun _ _ _ _ => hP.write) (fun _ _ _ _ => hP.move) (fun _ _ _ => hP.remove)

end IsKept

/-! ### Trees of names -/

/-- Everything in the tree has a name without a separator. -/
def IsNamed (t : Tree) : Prop :=
  ∀ l name n, t.node? (l ++ [name]) = some n → '/' ∉ name.toList

theorem isKept_isNamed :
  IsKept IsNamed
  where
    put := by
      intro t l name n ht hname k a m hm
      by_cases heq : k ++ [a] = l ++ [name]
      · obtain rfl : a = name := by simpa using (List.append_inj' heq rfl).2
        exact hname.separated
      · rw [node?_put_ne t n heq] at hm
        exact ht k a m hm
    erase := by
      intro t l ht k a m hm
      have hne : k ++ [a] ≠ l := by
        rintro rfl
        simp [node?_erase_self] at hm
      rw [node?_erase_ne t hne] at hm
      exact ht k a m hm

end Tree

namespace Storage

variable {p : Path} {filling : Filling} {t u : Tree} {l : Location} {name : String}

/-- Writing an artifact makes nothing without a name. -/
theorem isNamed_writeAtomic (ht : t.IsNamed)
    (h : onTree (writeAtomic p filling) t = (.ok (), u)) :
  u.IsNamed
  := by
  have hu := Tree.isKept_isNamed.writeAtomic p filling t ht
  rwa [h] at hu

/-- An artifact that was written is at its place, and listed once. -/
theorem place_writeAtomic (h : onTree (writeAtomic p filling) t = (.ok (), u)) :
  ∃ l name, u.place p = .ok (.entry l name false)
    ∧ u.node? (l ++ [name]) = some (.file filling.content) ∧ (u.names l).count name = 1
  := by
  obtain ⟨v, -, hcommit⟩ := writeAtomic_eq_ok_iff.mp h
  obtain ⟨w, folder, name, l, name', -, -, hplace, hdirectories, -, hu⟩ := commit_eq_ok hcommit
  refine ⟨l, name', Tree.place_of_directoriesIn hdirectories hplace, ?_, ?_⟩
  · rw [hu]
    exact Tree.node?_put_self _ _ (by simp)
  · rw [hu]
    exact Tree.count_names_put _ l name' _

end Storage

end CorpusAudit
