import CorpusAudit.Proofs.Storage.Places

/-!
# Trees without loose ends

In a tree without loose ends everything lies in a directory (`IsClosed`), and the
operations on files keep it so.  There a path leads to directories only on its way, and a
path that does not go up leads to the place that has its names, if something is there
(`resolve_of_node`).
-/

namespace CorpusAudit.Tree

variable {t u : Tree} {p q : Path} {l l' : Location} {n : Node}

/-- Everything in the tree lies in a directory. -/
def IsClosed (t : Tree) : Prop :=
  ∀ l name n, t.node? (l ++ [name]) = some n → t.node? l = some .directory

theorem isClosed_empty :
  empty.IsClosed
  := by
  intro l name n h
  cases l <;> simp [empty, node?] at h

/-- Above a node there are only directories. -/
theorem IsClosed.above (ht : t.IsClosed) (h : t.node? l = some n) (hl : l' <+: l) (hne : l' ≠ l) :
  t.node? l' = some .directory
  := by
  obtain ⟨inside, rfl⟩ := hl
  induction inside using List.reverseRecOn generalizing n with
  | nil => simp at hne
  | append_singleton inside name ih =>
    rw [← List.append_assoc] at h
    have hfolder := ht _ _ _ h
    by_cases hinside : inside = []
    · simpa [hinside] using hfolder
    · exact ih hfolder (by simpa using hinside)

/-! ### On the way -/

theorem IsClosed.enter (ht : t.IsClosed) (hl : t.node? l = some .directory) {name : String}
    (h : t.enter l name = .ok l') :
  t.node? l' = some .directory
  := by
  by_cases hfiller : name = "" ∨ name = "."
  · rw [enter_filler t l hfiller] at h
    rwa [← Except.ok.inj h]
  · rw [not_or] at hfiller
    by_cases hup : name = ".."
    · subst hup
      obtain rfl : l.dropLast = l' := by simpa [Tree.enter] using h
      induction l using List.reverseRecOn with
      | nil => exact hl
      | append_singleton k a ih =>
        rw [List.dropLast_concat]
        exact ht k a _ hl
    · obtain ⟨rfl, hnode⟩ := enter_eq_ok hfiller hup h
      exact hnode

theorem IsClosed.foldlM_enter (ht : t.IsClosed) {ns : List String} (hl : t.node? l = some .directory)
    (h : ns.foldlM t.enter l = .ok l') :
  t.node? l' = some .directory
  := by
  induction ns generalizing l with
  | nil =>
    obtain rfl : l = l' := Except.ok.inj h
    exact hl
  | cons name ns ih =>
    rw [List.foldlM_cons, bind_eq_ok_iff] at h
    obtain ⟨k, hk, h⟩ := h
    exact ih (ht.enter hl hk) h

/-- An entry is in a directory. -/
theorem IsClosed.folder (ht : t.IsClosed) {folder : Location} {name : String} {closed : Bool}
    (h : t.place p = .ok (.entry folder name closed)) :
  t.node? folder = some .directory
  := by
  obtain ⟨-, -, -, before, k, -, hfolder⟩ := names_of_place_entry h
  exact ht.foldlM_enter rfl hfolder

/-! ### What a path leads to -/

/-- What a path leads to is a directory or an entry. -/
theorem resolve_eq_ok (h : t.resolve p = .ok (l, n)) :
  (t.place p = .ok (.top l) ∧ n = .directory)
    ∨ ∃ folder name closed, t.place p = .ok (.entry folder name closed) ∧ l = folder ++ [name]
      ∧ t.node? l = some n ∧ (closed = true → n = .directory)
  := by
  obtain ⟨place, hplace, h⟩ := bind_eq_ok_iff.mp h
  cases place with
  | top k =>
    obtain ⟨rfl, rfl⟩ : k = l ∧ .directory = n := by simpa using h
    exact .inl ⟨hplace, rfl⟩
  | entry folder name closed =>
    refine .inr ⟨folder, name, closed, hplace, ?_⟩
    cases hnode : t.node? (folder ++ [name]) with
    | none => simp [hnode] at h
    | some m =>
      cases m with
      | file c =>
        cases closed with
        | true => simp [hnode] at h
        | false =>
          obtain ⟨rfl, rfl⟩ : folder ++ [name] = l ∧ .file c = n := by simpa [hnode] using h
          exact ⟨rfl, hnode, by simp⟩
      | directory =>
        obtain ⟨rfl, rfl⟩ : folder ++ [name] = l ∧ .directory = n := by simpa [hnode] using h
        exact ⟨rfl, hnode, fun _ => rfl⟩

/-- What is read at a path is the file at its place. -/
theorem read_eq_ok_iff {c : Bytes} :
  t.read p = .ok c ↔ ∃ folder name, t.place p = .ok (.entry folder name false)
    ∧ t.node? (folder ++ [name]) = some (.file c)
  := by
  constructor
  · intro h
    obtain ⟨⟨l, n⟩, hresolve, hfile⟩ := bind_eq_ok_iff.mp h
    cases n with
    | directory => simp at hfile
    | file c' =>
      obtain rfl : c' = c := by simpa using hfile
      rcases resolve_eq_ok hresolve with ⟨-, hn⟩ | ⟨folder, name, closed, hplace, rfl, hnode, hopen⟩
      · simp at hn
      · obtain rfl : closed = false := by simpa using hopen
        exact ⟨folder, name, hplace, hnode⟩
  · rintro ⟨folder, name, hplace, hnode⟩
    exact read_of_place hplace hnode

theorem IsClosed.resolve (ht : t.IsClosed) (h : t.resolve p = .ok (l, n)) :
  t.node? l = some n
  := by
  rcases resolve_eq_ok h with ⟨hplace, rfl⟩ | ⟨_, _, _, -, -, hnode, -⟩
  · exact ht.foldlM_enter rfl (foldlM_enter_of_place_top hplace)
  · exact hnode

/-- A path leads to the same where it leads to the same place and the same is there. -/
theorem resolve_congr {place : Place} (ht : t.place p = .ok place) (hu : u.place p = .ok place)
    (hnode : ∀ folder name closed, place = .entry folder name closed →
      u.node? (folder ++ [name]) = t.node? (folder ++ [name])) :
  u.resolve p = t.resolve p
  := by
  cases place with
  | top l => simp only [Tree.resolve, ht, hu, bind, Except.bind]
  | entry folder name closed =>
    simp only [Tree.resolve, ht, hu, bind, Except.bind, hnode folder name closed rfl]

/-! ### Paths that do not go up -/

/-- The place that has the given names. -/
def location (ns : List String) : Location :=
  ns.filter fun n => n ≠ "" && n ≠ "."

theorem location_append (ns ms : List String) :
  location (ns ++ ms) = location ns ++ location ms
  := List.filter_append ns ms

theorem foldlM_enter_location {ns : List String} (hup : ".." ∉ ns) (h : ns.foldlM t.enter l = .ok l') :
  l' = l ++ location ns
  := by
  induction ns generalizing l with
  | nil => simpa [location] using (Except.ok.inj h).symm
  | cons name ns ih =>
    rw [List.mem_cons, not_or] at hup
    rw [List.foldlM_cons, bind_eq_ok_iff] at h
    obtain ⟨k, hk, h⟩ := h
    rw [ih hup.2 h]
    by_cases hfiller : name = "" ∨ name = "."
    · rw [enter_filler t l hfiller] at hk
      obtain rfl := Except.ok.inj hk
      rcases hfiller with rfl | rfl <;> simp [location]
    · rw [not_or] at hfiller
      obtain ⟨rfl, -⟩ := enter_eq_ok hfiller (Ne.symm hup.1) hk
      simp [location, hfiller]

theorem location_of_place_entry (hup : ".." ∉ p.names) {folder : Location} {name : String}
    {closed : Bool} (h : t.place p = .ok (.entry folder name closed)) :
  folder ++ [name] = location p.names
  := by
  obtain ⟨hempty, hdot, -, before, k, hnames, hfolder⟩ := names_of_place_entry h
  have hbefore : ".." ∉ before := fun hmem => hup (by simp [hnames, hmem])
  rw [foldlM_enter_location hbefore hfolder, hnames, location_append]
  simp [location, hempty, hdot]

theorem location_of_resolve (hup : ".." ∉ p.names) (h : t.resolve p = .ok (l, n)) :
  l = location p.names
  := by
  rcases resolve_eq_ok h with ⟨hplace, -⟩ | ⟨_, _, _, hplace, hl, -, -⟩
  · simpa using foldlM_enter_location hup (foldlM_enter_of_place_top hplace)
  · rw [hl, location_of_place_entry hup hplace]

/-- The directories that a path lies in have fewer names. -/
theorem location_folder_ne (hq : q ∈ p.folders) :
  location q.names ≠ location p.names
  := by
  obtain ⟨n, before, hnames, hbegins⟩ := Path.names_of_mem_folders hq
  obtain ⟨k, hk⟩ := hnames ▸ Path.reversedNames_suffix p
  have hp : p.names = before.reverse ++ n :: k.reverse := by
    rw [← List.reverse_inj, ← hk]
    simp
  have hn : n ≠ "" ∧ n ≠ "." := by
    have hbefore : before ≠ [] := by
      rintro rfl
      exact Path.names_ne_nil q (List.prefix_nil.mp hbegins)
    simpa [Path.isFiller, hbefore] using Path.isFiller_of_dropFiller hnames
  have hlast : location (n :: k.reverse) = n :: location k.reverse := by
    simp [location, hn]
  have hlength : (location q.names).length ≤ (location before.reverse).length :=
    (hbegins.filter _).length_le
  intro heq
  rw [heq, hp, location_append, hlast, List.length_append, List.length_cons] at hlength
  omega

theorem up_not_mem_folder (hup : ".." ∉ p.names) (hq : q ∈ p.folders) :
  ".." ∉ q.names
  := by
  obtain ⟨n, before, hnames, hbegins⟩ := Path.names_of_mem_folders hq
  intro hmem
  have hbefore := (Path.before_suffix hnames).mem (List.mem_reverse.mp (hbegins.mem hmem))
  exact hup (by simpa using hbefore)

/-- What a path leads to in one tree it leads to in every tree without loose ends in which
it is at the same place. -/
theorem resolve_of_node (ht : t.IsClosed) (hu : u.IsClosed) (hup : ".." ∉ p.names)
    (h : u.resolve p = .ok (l, n)) (hnode : t.node? l = some n) :
  t.resolve p = .ok (l, n)
  := by
  have hlocation := location_of_resolve hup h
  have hnode' := hu.resolve h
  have hdirectory : ∀ k, k <+: l → u.node? k = some .directory → t.node? k = some .directory := by
    intro k hk hdirectory
    by_cases hkl : k = l
    · subst hkl
      rw [hnode, ← hnode', hdirectory]
    · exact ht.above hnode hk hkl
  have hfollow : ∀ ns k, ns <+: p.names → ns.foldlM u.enter [] = .ok k →
      ns.foldlM t.enter [] = .ok k := by
    intro ns k hns hk
    induction ns using List.reverseRecOn generalizing k with
    | nil => exact hk
    | append_singleton ns name ih =>
      have hplace := foldlM_enter_location (fun hmem => hup (hns.mem hmem)) hk
      rw [foldlM_enter_append] at hk ⊢
      obtain ⟨j, hj, hk⟩ := hk
      refine ⟨j, ih j ((List.prefix_append _ _).trans hns) hj, ?_⟩
      have hname : u.enter j name = .ok k := by simpa using hk
      have hbegins : k <+: l := by
        rw [hplace, hlocation]
        exact hns.filter _
      simpa using enter_of_directory hname (hdirectory k hbegins)
  obtain ⟨place, hplace⟩ : ∃ place, u.place p = .ok place := by
    obtain ⟨place, hplace, -⟩ := bind_eq_ok_iff.mp h
    exact ⟨place, hplace⟩
  rw [← h]
  apply resolve_congr hplace (place_of_prefixes hfollow hplace)
  rintro folder name closed rfl
  rw [location_of_place_entry hup hplace, ← hlocation, hnode, hnode']

/-! ### Operations -/

theorem IsClosed.put (ht : t.IsClosed) {folder : Location} {name : String}
    (hfolder : t.node? folder = some .directory)
    (h : t.node? (folder ++ [name]) = some .directory → n = .directory) :
  (t.put (folder ++ [name]) n).IsClosed
  := by
  intro k a m hm
  have hparent : t.node? k = some .directory := by
    by_cases heq : k ++ [a] = folder ++ [name]
    · rwa [(List.append_inj' heq rfl).1]
    · rw [node?_put_ne t n heq] at hm
      exact ht k a m hm
  by_cases heq : k = folder ++ [name]
  · subst heq
    rw [node?_put_self t n (by simp), h hparent]
  · rwa [node?_put_ne t n heq]

theorem IsClosed.erase (ht : t.IsClosed) (h : t.node? l ≠ some .directory) :
  (t.erase l).IsClosed
  := by
  intro k a m hm
  have hne : k ++ [a] ≠ l := by
    rintro rfl
    rw [node?_erase_self t (by simp)] at hm
    simp at hm
  rw [node?_erase_ne t hne] at hm
  have hparent := ht k a m hm
  have hk : k ≠ l := by
    rintro rfl
    exact h hparent
  rwa [node?_erase_ne t hk]

theorem IsClosed.createDirectory (ht : t.IsClosed) (h : t.createDirectory p = .ok u) :
  u.IsClosed
  := by
  obtain ⟨folder, name, closed, hplace, -, rfl⟩ := createDirectory_eq_ok h
  exact ht.put (ht.folder hplace) (fun _ => rfl)

theorem IsClosed.write (ht : t.IsClosed) {c : Bytes} (h : t.write p c = .ok u) :
  u.IsClosed
  := by
  obtain ⟨folder, name, hplace, hnode, rfl⟩ := write_eq_ok h
  exact ht.put (ht.folder hplace) (fun hdirectory => absurd hdirectory hnode)

/-- What removing a file has done. -/
theorem remove_eq_ok (h : t.remove p = .ok u) :
  ∃ folder name closed, t.place p = .ok (.entry folder name closed)
    ∧ t.node? (folder ++ [name]) ≠ some .directory ∧ u = t.erase (folder ++ [name])
  := by
  obtain ⟨⟨l, n⟩, hresolve, h⟩ := bind_eq_ok_iff.mp h
  cases n with
  | directory => simp at h
  | file c =>
    rcases resolve_eq_ok hresolve with ⟨-, hn⟩ | ⟨folder, name, closed, hplace, rfl, hnode, -⟩
    · simp at hn
    · refine ⟨folder, name, closed, hplace, by simp [hnode], ?_⟩
      exact (Except.ok.inj h).symm

theorem IsClosed.remove (ht : t.IsClosed) (h : t.remove p = .ok u) :
  u.IsClosed
  := by
  obtain ⟨folder, name, closed, -, hnode, rfl⟩ := remove_eq_ok h
  exact ht.erase hnode

theorem IsClosed.move (ht : t.IsClosed) (h : t.move p q = .ok u) :
  u.IsClosed
  := by
  obtain ⟨folder, name, folder', name', c, -, hgoal, hnode, hfree, rfl⟩ := move_eq_ok h
  have hfile : t.node? (folder ++ [name]) ≠ some .directory := by simp [hnode]
  have herased := ht.erase hfile
  apply herased.put
  · exact directoriesIn_erase hfile _ (ht.folder hgoal)
  · intro hdirectory
    exact absurd (erase_directoriesIn (by simp) _ hdirectory) hfree

end CorpusAudit.Tree
