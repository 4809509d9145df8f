import CorpusAudit.Proofs.Storage.Frames

/-!
# Atomicity of artifacts

An artifact is written as a whole or not at all (`isAtomic_writeAtomic`): what is at the path
is replaced by all the bytes or stays as it was, no temporary file is left, all other files
are as before, and the only directories that are new are those the path lies in.  These are
made one after the other (`AddsOnly`), and where one cannot be made it is not there
afterwards (`createAll_eq_error`), so that no temporary file can be either.
-/

namespace CorpusAudit

namespace Tree

variable {t u : Tree} {p q : Path} {l : Location} {c : Bytes}

/-! ### New directories -/

/-- The path leads to a name in a directory, and this is the place of the name, whether
something is there or not. -/
def Locates (t : Tree) (p : Path) (l : Location) : Prop :=
  ∃ folder name closed, t.place p = .ok (.entry folder name closed) ∧ l = folder ++ [name]

/-- A path has one place at most. -/
theorem Locates.eq {l' : Location} (hl : t.Locates p l) (hl' : t.Locates p l') :
  l = l'
  := by
  obtain ⟨folder, name, closed, hplace, rfl⟩ := hl
  obtain ⟨folder', name', closed', hplace', rfl⟩ := hl'
  obtain ⟨rfl, rfl, -⟩ : folder = folder' ∧ name = name' ∧ _ := by
    rw [hplace] at hplace'
    simpa using hplace'
  rfl

theorem Locates.mono (h : DirectoriesIn t u) (hl : t.Locates p l) :
  u.Locates p l
  := by
  obtain ⟨folder, name, closed, hplace, hl⟩ := hl
  exact ⟨folder, name, closed, place_of_directoriesIn h hplace, hl⟩

theorem Locates.resolve (hl : t.Locates p l) (h : t.node? l = some .directory) :
  t.resolve p = .ok (l, .directory)
  := by
  obtain ⟨folder, name, closed, hplace, rfl⟩ := hl
  simp [Tree.resolve, hplace, h, bind, Except.bind]

/-- Nothing has changed, but that some of the given directories were made. -/
def AddsOnly (folders : List Path) (t u : Tree) : Prop :=
  ∀ l, u.node? l = t.node? l
    ∨ t.node? l = none ∧ u.node? l = some .directory ∧ ∃ q ∈ folders, u.Locates q l

namespace AddsOnly

variable {folders : List Path}

theorem directoriesIn (h : AddsOnly folders t u) :
  DirectoriesIn t u
  := by
  intro l hl
  rcases h l with hsame | ⟨hnone, -, -⟩
  · rw [hsame, hl]
  · simp [hnone] at hl

theorem file_iff (h : AddsOnly folders t u) :
  u.node? l = some (.file c) ↔ t.node? l = some (.file c)
  := by
  rcases h l with hsame | ⟨hnone, hdirectory, -⟩
  · rw [hsame]
  · simp [hnone, hdirectory]

theorem isFrame (folders : List Path) :
  IsFrame (AddsOnly folders)
  where
  refl _ _ := .inl rfl
  trans {s t u} hst htu := by
    intro l
    rcases htu l with hsame | ⟨hnone, hnew⟩
    · rcases hst l with hsame' | ⟨hnone, hdirectory, q, hq, hl⟩
      · exact .inl (hsame.trans hsame')
      · exact .inr ⟨hnone, hsame.trans hdirectory, q, hq, hl.mono (directoriesIn htu)⟩
    · rcases hst l with hsame' | ⟨-, hdirectory, -⟩
      · exact .inr ⟨hsame' ▸ hnone, hnew⟩
      · simp [hnone] at hdirectory

theorem createDirectory (hq : q ∈ folders) (h : t.createDirectory q = .ok u) :
  AddsOnly folders t u
  := by
  obtain ⟨folder, name, closed, hplace, hnode, rfl⟩ := createDirectory_eq_ok h
  have hnew : (t.put (folder ++ [name]) .directory).node? (folder ++ [name]) = some .directory :=
    node?_put_self t _ (by simp)
  have hdirectories : DirectoriesIn t (t.put (folder ++ [name]) .directory) := by
    intro k hk
    by_cases hkl : k = folder ++ [name]
    · rwa [hkl]
    · rwa [node?_put_ne t _ hkl]
  intro l
  by_cases hl : l = folder ++ [name]
  · subst hl
    exact .inr ⟨hnode, hnew, q, hq, folder, name, closed,
      place_of_directoriesIn hdirectories hplace, rfl⟩
  · exact .inl (node?_put_ne t _ hl)

theorem createAll (folders : List Path) :
  Leads (AddsOnly folders) (Storage.createAll folders : ExceptT FileFault (StateM Tree) Unit)
  := Leads.createAll (isFrame folders) fun _ hq _ _ => createDirectory hq

/-- What is a new directory is one of those that were to be made. -/
theorem made (h : AddsOnly folders t u) (hnew : t.node? l ≠ some .directory)
    (hl : u.node? l = some .directory) :
  ∃ q ∈ folders, u.Locates q l
  := by
  rcases h l with hsame | ⟨-, -, hmade⟩
  · rw [hsame] at hl
    exact absurd hl hnew
  · exact hmade

end AddsOnly

/-! ### Files that are removed -/

theorem onTree_remove (p : Path) (t : Tree) :
  onTree (Storage.remove p) t =
    match t.remove p with
    | .ok u => (.ok (), u)
    | .error e => (.error e, t)
  := onTree_attempt (·.remove p) t

/-- After a file was to be removed, none is there. -/
theorem read_of_remove (t : Tree) (p : Path) (c : Bytes) :
  (onTree (Storage.remove p : ExceptT FileFault (StateM Tree) Unit) t).2.read p ≠ .ok c
  := by
  rw [onTree_remove]
  cases hu : t.remove p with
  | ok u =>
    obtain ⟨folder, name, closed, hplace, hnode, rfl⟩ := remove_eq_ok hu
    have hplace' := place_of_directoriesIn (directoriesIn_erase hnode) hplace
    have hnone := node?_erase_self t (l := folder ++ [name]) (by simp)
    simp [Tree.read, Tree.resolve, hplace', hnone, bind, Except.bind]
  | error e =>
    -- what can be read can be removed
    intro hread
    obtain ⟨⟨l, n⟩, hresolve, hfile⟩ := bind_eq_ok_iff.mp hread
    cases n with
    | directory => simp at hfile
    | file c' => simp [Tree.remove, hresolve, bind, Except.bind] at hu

/-- Removing makes no file. -/
theorem file_of_remove
    (h : (onTree (Storage.remove p : ExceptT FileFault (StateM Tree) Unit) t).2.node? l
      = some (.file c)) :
  t.node? l = some (.file c)
  := by
  rw [onTree_remove] at h
  cases hu : t.remove p with
  | error e => rwa [hu] at h
  | ok u =>
    rw [hu] at h
    obtain ⟨folder, name, closed, -, -, rfl⟩ := remove_eq_ok hu
    have hne : l ≠ folder ++ [name] := by
      rintro rfl
      simp [node?_erase_self] at h
    rwa [node?_erase_ne t hne] at h

/-- A file that was written is removed. -/
theorem file_of_write_remove {v : Tree} {d : Bytes} (hwrite : t.write p d = .ok v)
    (h : (onTree (Storage.remove p : ExceptT FileFault (StateM Tree) Unit) v).2.node? l
      = some (.file c)) :
  t.node? l = some (.file c)
  := by
  have honly : Storage.OnlyAt p v
      (onTree (Storage.remove p : ExceptT FileFault (StateM Tree) Unit) v).2 :=
    Leads.attempt (Storage.OnlyAt.isFrame p) (fun _ _ => Storage.OnlyAt.remove) v
  obtain ⟨folder, name, hplace, hnode, rfl⟩ := write_eq_ok hwrite
  have hplace' := place_of_directoriesIn (directoriesIn_put hnode d) hplace
  by_cases hl : l = folder ++ [name]
  · subst hl
    exact absurd (read_of_place (honly.place hplace') h) (read_of_remove _ p c)
  · have hwritten := file_of_remove h
    rwa [node?_put_ne t _ hl] at hwritten

end Tree

/-! ### Failures -/

namespace Storage

variable {p q : Path} {filling : Filling} {t u : Tree}

theorem onTree_unlessPresent (q : Path) (e : FileFault) (t : Tree) :
  onTree (do
      if !(← (Storage.isDirectory q : StateM Tree Bool)) then throw e
    : ExceptT FileFault (StateM Tree) Unit) t
    = (if t.isDirectory q then .ok () else .error e, t)
  := by
  have hdirectory : onTree (liftM (Storage.isDirectory q : StateM Tree Bool)
      : ExceptT FileFault (StateM Tree) Bool) t = (.ok (t.isDirectory q), t) := rfl
  rw [onTree_bind, hdirectory]
  cases t.isDirectory q <;> rfl

/-- A directory that could not be made is not there. -/
theorem createAll_eq_error {folders : List Path} {e : FileFault}
    (h : onTree (createAll folders) t = (.error e, u)) :
  ∃ q ∈ folders, u.isDirectory q = false
  := by
  induction folders generalizing t e with
  | nil => simp [createAll] at h
  | cons q above ih =>
    have hthere {e' : FileFault} {v : Tree} (h : onTree (do
        if !(← (Storage.isDirectory q : StateM Tree Bool)) then throw e'
        : ExceptT FileFault (StateM Tree) Unit) v = (.error e, u)) :
        ∃ q' ∈ q :: above, u.isDirectory q' = false := by
      rw [onTree_unlessPresent] at h
      obtain ⟨hresult, rfl⟩ := Prod.mk.inj h
      refine ⟨q, List.mem_cons_self, ?_⟩
      cases hpresent : v.isDirectory q with
      | false => rfl
      | true => simp [hpresent] at hresult
    obtain ⟨e', v, -, h⟩ := onTree_tryCatch_eq_error_iff.mp h
    split at h
    · -- one of those above is missing, or this one, which is tried again
      rcases onTree_bind_eq_error_iff.mp h with habove | ⟨⟨⟩, w, -, hagain⟩
      · obtain ⟨q', hq', hmissing⟩ := ih habove
        exact ⟨q', List.mem_cons_of_mem q hq', hmissing⟩
      · obtain ⟨e'', x, -, hagain⟩ := onTree_tryCatch_eq_error_iff.mp hagain
        exact hthere hagain
    · exact hthere h

/-- Where a directory could not be made, there is no temporary file. -/
theorem read_of_createAll_error (hp : p.fileName?.isSome = true) {e : FileFault}
    (h : onTree (createAll p.folders) t = (.error e, u)) (c : Bytes) :
  u.read p.temporary ≠ .ok c
  := by
  intro hread
  obtain ⟨found, hresolve, -⟩ := bind_eq_ok_iff.mp hread
  obtain ⟨place, hplace, -⟩ := bind_eq_ok_iff.mp hresolve
  obtain ⟨q, hq, hmissing⟩ := createAll_eq_error h
  simp [Tree.isDirectory_of_place_temporary hp hplace hq] at hmissing

/-- Where writing an artifact fails, no temporary file is left. -/
theorem read_of_writeAtomic_error (hp : p.fileName?.isSome = true) {e : Fault}
    (h : onTree (writeAtomic p filling) t = (.error e, u)) (c : Bytes) :
  u.read p.temporary ≠ .ok c
  := by
  rcases writeAtomic_eq_error h with ⟨e', hcreate⟩ | ⟨v, e', -, hcommit⟩
  · exact read_of_createAll_error hp hcreate c
  · obtain ⟨w, -, hu⟩ := commitOrClean_eq_error hcommit
    rw [hu]
    exact Tree.read_of_remove w p.temporary c

end Storage

/-! ### Other files -/

namespace Tree

/-- No file is new, and the files are as they were, but for one that was at the temporary
path. -/
structure SparesFiles (p : Path) (t u : Tree) : Prop where
  old : ∀ l c, u.node? l = some (.file c) → t.node? l = some (.file c)
  kept : ∀ l c, t.node? l = some (.file c) → ¬ u.Locates p.temporary l →
    u.node? l = some (.file c)

/-- The directories are still there, and those that are new are some that the path lies in. -/
structure AddsFolders (p : Path) (t u : Tree) : Prop where
  kept : t.DirectoriesIn u
  made : ∀ l, u.node? l = some .directory → t.node? l ≠ some .directory →
    ∃ q ∈ p.folders, u.resolve q = .ok (l, .directory)

theorem SparesFiles.refl (p : Path) (t : Tree) :
  t.SparesFiles p t
  := ⟨fun _ _ h => h, fun _ _ h _ => h⟩

theorem AddsFolders.refl (p : Path) (t : Tree) :
  t.AddsFolders p t
  := ⟨fun _ h => h, fun _ h hnew => absurd h hnew⟩

/-- Only the file at the path is new, or another one than before, and only one that was at
the temporary path is gone. -/
def ReplacesFile (p : Path) (t u : Tree) : Prop :=
  ∀ l, ¬ u.Locates p l → ¬ u.Locates p.temporary l →
    ∀ c, u.node? l = some (.file c) ↔ t.node? l = some (.file c)

end Tree

namespace Storage

/-- A commit changes nothing but what is at the path and at its temporary path. -/
theorem node_of_commit (h : onTree (commit p filling) t = (.ok (), u)) {l : Location}
    (hp : ¬ u.Locates p l) (htemporary : ¬ u.Locates p.temporary l) :
  u.node? l = t.node? l
  := by
  obtain ⟨v, folder, name, folder', name', hwrite, hsource, hplace, hdirectories, -, rfl⟩ :=
    commit_eq_ok h
  have hlocates {q : Path} {inside : Location} {n : String}
      (hq : v.place q = .ok (.entry inside n false)) :
      ((v.erase (folder ++ [name])).put (folder' ++ [name']) (.file filling.content)).Locates q
        (inside ++ [n]) :=
    ⟨inside, n, false, Tree.place_of_directoriesIn hdirectories hq, rfl⟩
  have hpath : l ≠ folder' ++ [name'] := by
    rintro rfl
    exact hp (hlocates hplace)
  have hother : l ≠ folder ++ [name] := by
    rintro rfl
    exact htemporary (hlocates hsource)
  rw [Tree.node?_put_ne _ _ hpath, Tree.node?_erase_ne _ hother]
  -- the temporary path led to the same place when it was written
  apply (OnlyAt.write hwrite).node
  intro inside n closed hq
  have hsame := (OnlyAt.write hwrite).place hq
  obtain ⟨rfl, rfl, -⟩ : folder = inside ∧ name = n ∧ _ := by
    rw [hsource] at hsame
    simpa using hsame
  exact hother

/-- Whether writing an artifact succeeds or not, the directories it lies in were made, or some
of them, and no others are new or gone. -/
theorem exists_addsOnly (p : Path) (filling : Filling) (t : Tree) :
  ∃ v, Tree.AddsOnly p.folders t v ∧ Tree.DirectoriesIn v
      (onTree (writeAtomic p filling : ExceptT Fault (StateM Tree) Unit) t).2
    ∧ Tree.DirectoriesIn
      (onTree (writeAtomic p filling : ExceptT Fault (StateM Tree) Unit) t).2 v
  := by
  have hadds := Tree.AddsOnly.createAll p.folders t
  cases h : onTree (writeAtomic p filling : ExceptT Fault (StateM Tree) Unit) t with
  | mk result u =>
    cases result with
    | error e =>
      have honly := onlyAt_of_writeAtomic_error h
      exact ⟨_, hadds, fun l => (honly.directory l).mp, fun l => (honly.directory l).mpr⟩
    | ok a =>
      obtain ⟨v, hcreate, hcommit⟩ := writeAtomic_eq_ok_iff.mp h
      rw [hcreate] at hadds
      obtain ⟨w, -, -, -, -, hwrite, -, -, hin, hout, -⟩ := commit_eq_ok hcommit
      have honly := OnlyAt.write hwrite
      exact ⟨v, hadds, fun l hl => hin l ((honly.directory l).mp hl),
        fun l hl => (honly.directory l).mpr (hout l hl)⟩

theorem addsFolders_of_writeAtomic (p : Path) (filling : Filling) (t : Tree) :
  t.AddsFolders p (onTree (writeAtomic p filling : ExceptT Fault (StateM Tree) Unit) t).2
  := by
  obtain ⟨v, hadds, hin, hout⟩ := exists_addsOnly p filling t
  constructor
  · intro l hl
    exact hin l (hadds.directoriesIn l hl)
  · intro l hl hnew
    obtain ⟨q, hq, hlocates⟩ := hadds.made hnew (hout l hl)
    exact ⟨q, hq, (hlocates.mono hin).resolve hl⟩

theorem replacesFile_of_writeAtomic (h : onTree (writeAtomic p filling) t = (.ok (), u)) :
  t.ReplacesFile p u
  := by
  obtain ⟨v, hcreate, hcommit⟩ := writeAtomic_eq_ok_iff.mp h
  have hadds := Tree.AddsOnly.createAll p.folders t
  rw [hcreate] at hadds
  intro l hp htemporary c
  rw [node_of_commit hcommit hp htemporary]
  exact hadds.file_iff

/-- A commit that fails makes no file. -/
theorem file_of_commitOrClean_error {e : FileFault} {l : Location} {c : Bytes}
    (h : onTree (commitOrClean p filling) t = (.error e, u)) (hfile : u.node? l = some (.file c)) :
  t.node? l = some (.file c)
  := by
  obtain ⟨v, hv, hu⟩ := commitOrClean_eq_error h
  rw [hu] at hfile
  rcases hv with rfl | hwrite
  · exact Tree.file_of_remove hfile
  · exact Tree.file_of_write_remove hwrite hfile

theorem sparesFiles_of_writeAtomic {e : Fault}
    (h : onTree (writeAtomic p filling) t = (.error e, u)) :
  t.SparesFiles p u
  := by
  have honly := onlyAt_of_writeAtomic_error h
  have hadds := Tree.AddsOnly.createAll p.folders t
  constructor
  · intro l c hfile
    rw [← hadds.file_iff]
    rcases writeAtomic_eq_error h with ⟨e', hcreate⟩ | ⟨v, e', hcreate, hcommit⟩
    · rwa [hcreate]
    · rw [hcreate]
      exact file_of_commitOrClean_error hcommit hfile
  · intro l c hfile htemporary
    rw [honly.node l, hadds.file_iff, hfile]
    intro folder name closed hplace hl
    exact htemporary ⟨folder, name, closed, honly.place hplace, hl⟩

/-! ### All at once -/

/-- An artifact is written as a whole or not at all: the bytes are at the path and nothing is
at its temporary path, or what was at the path is still there and no temporary file is left.
Other files stay as they are, and only directories that the path lies in are new. -/
structure IsAtomic (p : Path) (filling : Filling) (t : Tree) (result : Except Fault Unit)
    (u : Tree) : Prop where
  written : result = .ok () → filling.failure? = none ∧ u.read p = .ok filling.content
    ∧ u.isPresent p.temporary = false ∧ t.ReplacesFile p u
  spared : ∀ e, result = .error e → (∀ found, t.resolve p = .ok found → u.resolve p = .ok found)
    ∧ (∀ c, u.read p.temporary ≠ .ok c) ∧ t.SparesFiles p u
  directories : t.DirectoriesIn u
  made : ∀ l, u.node? l = some .directory → t.node? l ≠ some .directory →
    ∃ q ∈ p.folders, u.resolve q = .ok (l, .directory)

/-- An artifact whose path ends in a name is written as a whole or not at all. -/
theorem isAtomic_writeAtomic (hp : p.fileName?.isSome = true) (filling : Filling) (t : Tree) :
  IsAtomic p filling t (onTree (writeAtomic p filling) t).1 (onTree (writeAtomic p filling) t).2
  := by
  have hfolders := addsFolders_of_writeAtomic p filling t
  generalize houtcome : onTree (writeAtomic p filling : ExceptT Fault (StateM Tree) Unit) t = outcome
  rw [houtcome] at hfolders
  obtain ⟨result, u⟩ := outcome
  constructor
  case written =>
    rintro rfl
    obtain ⟨w, -, hcommit⟩ := writeAtomic_eq_ok_iff.mp houtcome
    exact ⟨(commit_eq_ok_iff.mp hcommit).1, read_writeAtomic houtcome,
      isPresent_temporary houtcome, replacesFile_of_writeAtomic houtcome⟩
  case spared =>
    rintro e rfl
    refine ⟨?_, read_of_writeAtomic_error hp houtcome, sparesFiles_of_writeAtomic houtcome⟩
    intro found hfound
    obtain ⟨place, hplace, -⟩ := bind_eq_ok_iff.mp hfound
    rw [resolve_of_place houtcome hplace, hfound]
  case directories => exact hfolders.kept
  case made => exact hfolders.made

/-- A report and a stale temporary file beside it. -/
def staleTree : Tree :=
  ⟨[(["out"], .directory), (["out", "report.json"], .file [1]),
    (["out", "report.json.tmp"], .file [2])]⟩

/-- The same without the temporary file. -/
def oldTree : Tree :=
  ⟨[(["out"], .directory), (["out", "report.json"], .file [1])]⟩

/-- Where writing a report fails half-way, the old report is left, and the stale temporary
file is gone as well. -/
theorem isAtomic_writeAtomic_stale :
  (Path.mk "out/report.json").fileName?.isSome = true
    ∧ onTree (writeAtomic ⟨"out/report.json"⟩ ⟨[3], some (.other "disk full")⟩) staleTree
      = (.error (.input ⟨"out/report.json"⟩ (.file (.other "disk full"))), oldTree)
    ∧ IsAtomic ⟨"out/report.json"⟩ ⟨[3], some (.other "disk full")⟩ staleTree
      (.error (.input ⟨"out/report.json"⟩ (.file (.other "disk full")))) oldTree
  := ⟨rfl, rfl, isAtomic_writeAtomic rfl _ staleTree⟩

end Storage

end CorpusAudit
