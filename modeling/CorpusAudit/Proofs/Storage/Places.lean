import CorpusAudit.Proofs.Storage.Paths
import CorpusAudit.Proofs.Storage.Trees

/-!
# Where paths lead

A path leads where its names lead one after the other.  So the temporary path leads to a
place beside the path itself (`place_temporary`), and where a path leads somewhere, the
directories it lies in are there already (`createDirectory_folder`).  In a tree without
loose ends (`IsClosed`) everything above a node is a directory; hence a path that does not
go up leads to the place that has its names, if something is there (`resolve_of_node`).
-/

namespace CorpusAudit.Tree

open CorpusAudit.Path (dropFiller isFiller)

variable {t u : Tree} {p : Path} {l l' : Location}

/-! ### Following names -/

theorem foldlM_enter_append {ns ms : List String} :
  (ns ++ ms).foldlM t.enter l = .ok l'
    ↔ ∃ k, ns.foldlM t.enter l = .ok k ∧ ms.foldlM t.enter k = .ok l'
  := by
  rw [List.foldlM_append, bind_eq_ok_iff]

theorem enter_filler (t : Tree) (l : Location) {name : String} (h : name = "" ∨ name = ".") :
  t.enter l name = .ok l
  := by
  rcases h with rfl | rfl <;> simp [enter]

/-- A name other than those of a place itself and of what is above it leads to a directory
of this name. -/
theorem enter_eq_ok {name : String} (hfiller : name ≠ "" ∧ name ≠ ".") (hup : name ≠ "..")
    (h : t.enter l name = .ok l') :
  l' = l ++ [name] ∧ t.node? (l ++ [name]) = some .directory
  := by
  rw [enter, if_neg (by simpa using hfiller), if_neg hup] at h
  split at h
  · simp at h
  · split at h
    · simp at h
    · simp at h
    · next hnode => exact ⟨(Except.ok.inj h).symm, hnode⟩

theorem size_of_enter_eq_ok {name : String} (hdots : ¬(name = "." ∨ name = ".."))
    (h : t.enter l name = .ok l') :
  name.utf8ByteSize ≤ longestName
  := by
  rw [not_or] at hdots
  by_cases hempty : name = ""
  · simp [hempty]
  · apply Nat.le_of_not_lt
    intro hlong
    simp [enter, hempty, hdots, hlong] at h

theorem foldlM_enter_fillers (t : Tree) (l : Location) (k : Nat) :
  (List.replicate k "").foldlM t.enter l = .ok l
  := by
  induction k with
  | zero => rfl
  | succ k ih =>
    rw [List.replicate_succ, List.foldlM_cons, enter_filler t l (.inl rfl)]
    exact ih

/-- Fillers lead nowhere else. -/
theorem foldlM_enter_dropFiller (t : Tree) (absolute : Bool) (ns : List String) (l : Location) :
  (dropFiller absolute ns).reverse.foldlM t.enter l = ns.reverse.foldlM t.enter l
  := by
  induction ns with
  | nil => rfl
  | cons n ns ih =>
    rw [dropFiller]
    split
    · next hn =>
      have hfiller : n = "" ∨ n = "." := by
        simp only [isFiller, Bool.or_eq_true, Bool.and_eq_true, decide_eq_true_eq] at hn
        exact hn.imp_right And.left
      rw [ih, List.reverse_cons, List.foldlM_append]
      cases ns.reverse.foldlM t.enter l with
      | error e => rfl
      | ok k =>
        have hsame : [n].foldlM t.enter k = .ok k := by simp [enter_filler t k hfiller]
        exact hsame.symm
    · rfl

/-! ### Places and names -/

/-- Names up to the last one that is not empty. -/
theorem names_of_dropWhile {ns before : List String} {name : String}
    (h : ns.reverse.dropWhile (· = "") = name :: before) :
  name ≠ "" ∧ ∃ k, ns = before.reverse ++ name :: List.replicate k ""
  := by
  constructor
  · rintro rfl
    have hhead := List.head?_dropWhile_not (· = "") ns.reverse
    simp [h] at hhead
  · have hempty : ∀ n ∈ ns.reverse.takeWhile (· = ""), n = "" := by
      intro n hn
      simpa using List.mem_takeWhile_imp hn
    have hreverse : ns.reverse = ns.reverse.takeWhile (· = "") ++ name :: before := by
      rw [← h, List.takeWhile_append_dropWhile]
    generalize ns.reverse.takeWhile (· = "") = fillers at hempty hreverse
    refine ⟨fillers.length, ?_⟩
    rw [← List.reverse_inj, hreverse, List.eq_replicate_of_mem hempty]
    simp

/-- All names of a path lead to the directory that it leads to as such. -/
theorem foldlM_enter_of_place_top (h : t.place p = .ok (.top l)) :
  p.names.foldlM t.enter [] = .ok l
  := by
  obtain ⟨-, h⟩ := place_eq_ok_iff.mp h
  split at h
  · next hnames =>
    obtain rfl : [] = l := by simpa using h
    have hempty : ∀ n ∈ p.names, n = "" := by
      simpa [List.dropWhile_eq_nil_iff] using hnames
    rw [List.eq_replicate_of_mem hempty]
    exact foldlM_enter_fillers t [] _
  · next name before hnames =>
    obtain ⟨-, k, hnames⟩ := names_of_dropWhile hnames
    obtain ⟨folder, hfolder, h⟩ := h
    split at h
    · obtain ⟨l', hl', h⟩ := h
      obtain rfl : l' = l := by simpa using h
      rw [hnames, foldlM_enter_append]
      refine ⟨folder, hfolder, ?_⟩
      rw [List.foldlM_cons, hl']
      exact foldlM_enter_fillers t l' k
    · simp at h

/-- The names before the last one that is not empty lead to the directory of an entry. -/
theorem names_of_place_entry {folder : Location} {name : String} {closed : Bool}
    (h : t.place p = .ok (.entry folder name closed)) :
  name ≠ "" ∧ name ≠ "." ∧ name ≠ ".." ∧ ∃ before k,
    p.names = before ++ name :: List.replicate k "" ∧ before.foldlM t.enter [] = .ok folder
  := by
  obtain ⟨-, h⟩ := place_eq_ok_iff.mp h
  split at h
  · simp at h
  · next name' before hnames =>
    obtain ⟨hname, k, hnames⟩ := names_of_dropWhile hnames
    obtain ⟨folder', hfolder, h⟩ := h
    split at h
    · simp at h
    · next hdots =>
      obtain ⟨rfl, rfl, -⟩ : folder' = folder ∧ name' = name ∧ _ := by simpa using h.2
      rw [not_or] at hdots
      exact ⟨hname, hdots.1, hdots.2, before.reverse, k, hnames, hfolder⟩

theorem size_of_place_entry {folder : Location} {name : String} {closed : Bool}
    (h : t.place p = .ok (.entry folder name closed)) :
  name.utf8ByteSize ≤ longestName
  := by
  obtain ⟨-, h⟩ := place_eq_ok_iff.mp h
  split at h
  · simp at h
  · obtain ⟨l, -, h⟩ := h
    split at h
    · simp at h
    · obtain ⟨hsize, h⟩ := h
      obtain ⟨-, rfl, -⟩ : l = folder ∧ _ = name ∧ _ := by simpa using h
      exact hsize

theorem reversedNames_of_names {before : List String} {name : String} {k : Nat}
    (hname : name ≠ "" ∧ name ≠ ".") (hnames : p.names = before ++ name :: List.replicate k "") :
  p.reversedNames = name :: before.reverse
  := by
  have hdrop : ∀ k, dropFiller p.isAbsolute (List.replicate k "" ++ name :: before.reverse)
      = name :: before.reverse := by
    intro k
    induction k with
    | zero => simp [dropFiller, isFiller, hname]
    | succ k ih => simpa [List.replicate_succ, dropFiller, isFiller] using ih
  simpa [Path.reversedNames, hnames] using hdrop k

/-- The temporary path leads to a longer name in the same directory. -/
theorem place_temporary {folder folder' : Location} {name name' : String} {closed closed' : Bool}
    (hp : t.place p = .ok (.entry folder name closed))
    (htemporary : t.place p.temporary = .ok (.entry folder' name' closed')) :
  folder' = folder ∧ name' = name ++ ".tmp"
  := by
  obtain ⟨hempty, hdot, hup, before, k, hnames, hfolder⟩ := names_of_place_entry hp
  obtain ⟨-, -, -, before', k', hnames', hfolder'⟩ := names_of_place_entry htemporary
  rw [Path.names_temporary (reversedNames_of_names ⟨hempty, hdot⟩ hnames) ⟨hdot, hup⟩] at hnames'
  -- the last name is not empty, so none is dropped
  obtain rfl : k' = 0 := by
    cases k' with
    | zero => rfl
    | succ k' =>
      rw [List.replicate_succ', ← List.cons_append, ← List.append_assoc] at hnames'
      have hlast := (List.append_inj' hnames' rfl).2
      simp [String.append_eq_empty_iff] at hlast
  obtain ⟨hbefore, hname⟩ := List.append_inj' hnames' rfl
  refine ⟨?_, by simpa using hname.symm⟩
  rw [← hbefore, foldlM_enter_dropFiller, List.reverse_reverse, hfolder] at hfolder'
  exact (Except.ok.inj hfolder').symm

theorem ne_temporary (name : String) :
  name ≠ name ++ ".tmp"
  := by
  intro h
  have hlength := congrArg String.length h
  simp at hlength

/-! ### The directories that a path lies in -/

/-- Where a path leads somewhere, the names before its last part lead to a directory. -/
theorem exists_foldlM_enter {place : Place} (hp : t.place p = .ok place) {n : String}
    {before : List String} (hnames : p.reversedNames = n :: before) :
  ∃ l, before.reverse.foldlM t.enter [] = .ok l
  := by
  cases place with
  | top l =>
    have hall := foldlM_enter_of_place_top hp
    obtain ⟨rest, hrest⟩ : before.reverse <+: p.names := by
      simpa using List.reverse_prefix.mpr (Path.before_suffix hnames)
    rw [← hrest, foldlM_enter_append] at hall
    obtain ⟨k, hk, -⟩ := hall
    exact ⟨k, hk⟩
  | entry folder name closed =>
    obtain ⟨hempty, hdot, -, before', k, hnames', hfolder⟩ := names_of_place_entry hp
    rw [reversedNames_of_names ⟨hempty, hdot⟩ hnames'] at hnames
    obtain ⟨-, rfl⟩ := List.cons.inj hnames
    exact ⟨folder, by rwa [List.reverse_reverse]⟩

/-- What making a directory has done: there is a directory where nothing was. -/
theorem createDirectory_eq_ok (h : t.createDirectory p = .ok u) :
  ∃ folder name closed, t.place p = .ok (.entry folder name closed)
    ∧ t.node? (folder ++ [name]) = none ∧ u = t.put (folder ++ [name]) .directory
  := by
  obtain ⟨place, hplace, h⟩ := bind_eq_ok_iff.mp h
  cases place with
  | top l => simp at h
  | entry folder name closed =>
    simp only at h
    split at h
    · simp at h
    · next hnode => exact ⟨folder, name, closed, hplace, hnode, (Except.ok.inj h).symm⟩

/-- Where a path leads somewhere, there is no directory to make that it lies in. -/
theorem createDirectory_folder {place : Place} (hp : t.place p = .ok place) {q : Path}
    (hq : q ∈ p.folders) :
  t.createDirectory q ≠ .ok u
  := by
  intro hcreate
  obtain ⟨n, before, hnames, rest, hrest⟩ := Path.names_of_mem_folders hq
  obtain ⟨l, hl⟩ := exists_foldlM_enter hp hnames
  obtain ⟨inside, name, closed, hplace, hnode, -⟩ := createDirectory_eq_ok hcreate
  obtain ⟨hempty, hdot, hup, names, k, hnames', hinside⟩ := names_of_place_entry hplace
  -- the names of the directory lead on beyond the place where it would be made
  rw [← hrest, hnames', List.append_assoc, foldlM_enter_append] at hl
  obtain ⟨inside', hinside', hl⟩ := hl
  obtain rfl : inside = inside' := Except.ok.inj (hinside.symm.trans hinside')
  rw [List.cons_append, List.foldlM_cons, bind_eq_ok_iff] at hl
  obtain ⟨l', hl', -⟩ := hl
  have hdirectory := (enter_eq_ok ⟨hempty, hdot⟩ hup hl').2
  rw [hnode] at hdirectory
  simp at hdirectory

/-- A path whose names lead to a directory leads to it. -/
theorem isDirectory_of_foldlM (hp : IsFollowable p) (h : p.names.foldlM t.enter [] = .ok l) :
  t.isDirectory p = true
  := by
  have hplaced (place : Place) (hplace : t.place p = .ok place)
      (hnode : ∀ folder name closed, place = .entry folder name closed →
        t.node? (folder ++ [name]) = some .directory) : t.isDirectory p = true := by
    cases place with
    | top k => simp [isDirectory, resolve, hplace, bind, Except.bind]
    | entry folder name closed =>
      simp [isDirectory, resolve, hplace, hnode folder name closed rfl, bind, Except.bind]
  cases hnames : p.names.reverse.dropWhile (· = "") with
  | nil =>
    apply hplaced (.top [])
    · rw [place_eq_ok_iff, hnames]
      exact ⟨hp, rfl⟩
    · simp
  | cons name before =>
    obtain ⟨hname, k, hsplit⟩ := names_of_dropWhile hnames
    rw [hsplit, foldlM_enter_append] at h
    obtain ⟨folder, hfolder, h⟩ := h
    rw [List.foldlM_cons, bind_eq_ok_iff] at h
    obtain ⟨l', hl', -⟩ := h
    by_cases hdots : name = "." ∨ name = ".."
    · apply hplaced (.top l')
      · rw [place_eq_ok_iff, hnames]
        exact ⟨hp, folder, hfolder, by rw [if_pos hdots]; exact ⟨l', hl', rfl⟩⟩
      · simp
    · have hshort := size_of_enter_eq_ok hdots hl'
      rw [not_or] at hdots
      obtain ⟨rfl, hdirectory⟩ := enter_eq_ok ⟨hname, hdots.1⟩ hdots.2 hl'
      apply hplaced (.entry folder name (p.names.reverse.head? = some ""))
      · rw [place_eq_ok_iff, hnames]
        exact ⟨hp, folder, hfolder, by rw [if_neg (by simp [hdots])]; exact ⟨hshort, rfl⟩⟩
      · rintro _ _ _ ⟨rfl, rfl, -⟩
        exact hdirectory

/-- Where the temporary path leads somewhere, the directories that the path lies in are
there. -/
theorem isDirectory_of_place_temporary (hfile : p.fileName?.isSome = true) {place : Place}
    (hp : t.place p.temporary = .ok place) {q : Path} (hq : q ∈ p.folders) :
  t.isDirectory q = true
  := by
  obtain ⟨name, before, hnames, further, hbegins⟩ := Path.names_of_mem_folders hq
  have hdots : name ≠ "." ∧ name ≠ ".." := by simpa [Path.fileName?, hnames] using hfile
  obtain ⟨l, hl⟩ : ∃ l, q.names.foldlM t.enter [] = .ok l := by
    have htemporary := Path.names_temporary hnames hdots
    have hlast : name ++ ".tmp" ≠ "" ∧ name ++ ".tmp" ≠ "." := by
      refine ⟨by simp [String.append_eq_empty_iff], fun hdot => ?_⟩
      have hlength : (name ++ ".tmp").length = 1 := by rw [hdot]; rfl
      rw [String.length_append, show ".tmp".length = 4 from rfl] at hlength
      omega
    obtain ⟨k, hk⟩ := exists_foldlM_enter hp (reversedNames_of_names (k := 0) hlast htemporary)
    rw [List.reverse_reverse, foldlM_enter_dropFiller, ← hbegins, foldlM_enter_append] at hk
    obtain ⟨l, hl, -⟩ := hk
    exact ⟨l, hl⟩
  refine isDirectory_of_foldlM ?_ hl
  obtain ⟨⟨hnul, -, hlong⟩, -⟩ := place_eq_ok_iff.mp hp
  obtain ⟨rest, htext⟩ := Path.exists_temporary_text hfile hq
  rw [htext, String.toList_append, List.mem_append, not_or] at hnul
  rw [htext, String.utf8ByteSize_append] at hlong
  exact ⟨hnul.1, Path.text_ne_empty_of_mem_folders hq, by omega⟩

end CorpusAudit.Tree
