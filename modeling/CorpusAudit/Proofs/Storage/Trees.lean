import CorpusAudit.Proofs.Storage.Paths

/-!
# Programs on trees

A program that uses files is run on a tree (`onTree`).  What a path leads to is decided by
the directories of the tree alone, so putting a file somewhere does not divert other
paths; hence an artifact that was written is what is read at its place
(`read_writeAtomic`).
-/

namespace CorpusAudit

variable {ε ε' α β : Type}

/-- What a program comes to on a tree, and the tree it leaves. -/
def onTree (x : ExceptT ε (StateM Tree) α) (t : Tree) : Except ε α × Tree :=
  StateT.run (ExceptT.run x) t

theorem bind_eq_ok_iff {x : Except ε α} {f : α → Except ε β} {b : β} :
  x >>= f = .ok b ↔ ∃ a, x = .ok a ∧ f a = .ok b
  := by
  cases x <;> simp [bind, Except.bind]

/-! ### Running programs -/

@[simp]
theorem onTree_pure (a : α) (t : Tree) :
  onTree (pure a : ExceptT ε (StateM Tree) α) t = (.ok a, t)
  := rfl

@[simp]
theorem onTree_throw (e : ε) (t : Tree) :
  onTree (throw e : ExceptT ε (StateM Tree) α) t = (.error e, t)
  := rfl

@[simp]
theorem onTree_mk_pure (r : Except ε α) (t : Tree) :
  onTree (ExceptT.mk (pure r)) t = (r, t)
  := rfl

theorem onTree_bind (x : ExceptT ε (StateM Tree) α) (f : α → ExceptT ε (StateM Tree) β)
    (t : Tree) :
  onTree (x >>= f) t =
    match onTree x t with
    | (.ok a, t') => onTree (f a) t'
    | (.error e, t') => (.error e, t')
  := by
  have hbind : onTree (x >>= f) t = StateT.run (ExceptT.bindCont f (onTree x t).1) (onTree x t).2 :=
    rfl
  rw [hbind]
  rcases onTree x t with ⟨_ | _, _⟩ <;> rfl

theorem onTree_tryCatch (x : ExceptT ε (StateM Tree) α) (f : ε → ExceptT ε (StateM Tree) α)
    (t : Tree) :
  onTree (tryCatch x f) t =
    match onTree x t with
    | (.ok a, t') => (.ok a, t')
    | (.error e, t') => onTree (f e) t'
  := by
  have htry : onTree (tryCatch x f) t
      = (match (onTree x t).1 with
        | .ok a => fun t' => (Except.ok a, t')
        | .error e => onTree (f e)) (onTree x t).2 :=
    rfl
  rw [htry]
  rcases onTree x t with ⟨_ | _, _⟩ <;> rfl

theorem onTree_adapt (f : ε → ε') (x : ExceptT ε (StateM Tree) α) (t : Tree) :
  onTree (x.adapt f) t = ((onTree x t).1.mapError f, (onTree x t).2)
  := rfl

theorem onTree_read (p : Path) (t : Tree) :
  onTree (Storage.read p) t = (t.read p, t)
  := rfl

theorem onTree_located_read (p : Path) (t : Tree) :
  onTree (Storage.located p (Storage.read p)) t
    = ((t.read p).mapError fun e => .input p (.file e), t)
  := by
  rw [Storage.located, onTree_adapt, onTree_read]

theorem onTree_attempt (f : Tree → Except FileFault Tree) (t : Tree) :
  onTree (Tree.attempt f) t =
    match f t with
    | .ok u => (.ok (), u)
    | .error e => (.error e, t)
  := by
  have hattempt : onTree (Tree.attempt f) t
      = (match f t with | .ok u => (.ok (), u) | .error e => (.error e, t)) := rfl
  rw [hattempt]

/-- A program that ends well has done all its steps. -/
theorem onTree_bind_eq_ok_iff {x : ExceptT ε (StateM Tree) α} {f : α → ExceptT ε (StateM Tree) β}
    {b : β} {t u : Tree} :
  onTree (x >>= f) t = (.ok b, u)
    ↔ ∃ a t', onTree x t = (.ok a, t') ∧ onTree (f a) t' = (.ok b, u)
  := by
  rw [onTree_bind]
  rcases onTree x t with ⟨_ | a, t'⟩
  · simp
  · constructor
    · intro h
      exact ⟨a, t', rfl, h⟩
    · rintro ⟨a', t'', heq, h⟩
      obtain ⟨rfl, rfl⟩ : a = a' ∧ t' = t'' := by simpa using heq
      exact h

/-- A program fails at its first step or at a later one. -/
theorem onTree_bind_eq_error_iff {x : ExceptT ε (StateM Tree) α}
    {f : α → ExceptT ε (StateM Tree) β} {e : ε} {t u : Tree} :
  onTree (x >>= f) t = (.error e, u)
    ↔ onTree x t = (.error e, u)
      ∨ ∃ a t', onTree x t = (.ok a, t') ∧ onTree (f a) t' = (.error e, u)
  := by
  rw [onTree_bind]
  rcases onTree x t with ⟨_ | a, t'⟩ <;> simp

/-- A program that has another way out fails if this way fails as well. -/
theorem onTree_tryCatch_eq_error_iff {x : ExceptT ε (StateM Tree) α}
    {f : ε → ExceptT ε (StateM Tree) α} {e : ε} {t u : Tree} :
  onTree (tryCatch x f) t = (.error e, u)
    ↔ ∃ e' t', onTree x t = (.error e', t') ∧ onTree (f e') t' = (.error e, u)
  := by
  rw [onTree_tryCatch]
  rcases onTree x t with ⟨e' | _, t'⟩ <;> simp

theorem onTree_adapt_eq_error_iff {f : ε → ε'} {x : ExceptT ε (StateM Tree) α} {e : ε'}
    {t u : Tree} :
  onTree (x.adapt f) t = (.error e, u) ↔ ∃ e', onTree x t = (.error e', u) ∧ f e' = e
  := by
  rw [onTree_adapt]
  rcases onTree x t with ⟨_ | _, _⟩ <;> simp [Except.mapError, and_comm]

theorem onTree_attempt_eq_ok_iff {f : Tree → Except FileFault Tree} {t u : Tree} :
  onTree (Tree.attempt f) t = (.ok (), u) ↔ f t = .ok u
  := by
  rw [onTree_attempt]
  cases f t <;> simp

/-- A change that fails leaves the tree as it is. -/
theorem onTree_attempt_eq_error {f : Tree → Except FileFault Tree} {t u : Tree} {e : FileFault}
    (h : onTree (Tree.attempt f) t = (.error e, u)) :
  u = t
  := by
  rw [onTree_attempt] at h
  cases hf : f t with
  | ok v => simp [hf] at h
  | error e' =>
    rw [hf] at h
    exact (Prod.mk.inj h).2.symm

theorem onTree_write_eq_ok_iff {p : Path} {c : Bytes} {t u : Tree} :
  onTree (Storage.write p c) t = (.ok (), u) ↔ t.write p c = .ok u
  := onTree_attempt_eq_ok_iff (f := (·.write p c))

theorem onTree_move_eq_ok_iff {p q : Path} {t u : Tree} :
  onTree (Storage.move p q) t = (.ok (), u) ↔ t.move p q = .ok u
  := onTree_attempt_eq_ok_iff (f := (·.move p q))

theorem onTree_adapt_eq_ok_iff {f : ε → ε'} {x : ExceptT ε (StateM Tree) α} {a : α} {t u : Tree} :
  onTree (x.adapt f) t = (.ok a, u) ↔ onTree x t = (.ok a, u)
  := by
  rw [onTree_adapt]
  rcases onTree x t with ⟨_ | _, _⟩ <;> simp [Except.mapError]

/-! ### Places -/

namespace Tree

/-- Every directory of one tree is one of another. -/
def DirectoriesIn (t u : Tree) : Prop :=
  ∀ l, t.node? l = some .directory → u.node? l = some .directory

theorem enter_of_directory {t u : Tree} {l l' : Location} {name : String}
    (hl : t.enter l name = .ok l')
    (h : t.node? l' = some .directory → u.node? l' = some .directory) :
  u.enter l name = .ok l'
  := by
  simp only [enter] at hl ⊢
  split at hl
  · next hname => rw [if_pos hname, hl]
  · next hname =>
    rw [if_neg hname]
    split at hl
    · next hup => rw [if_pos hup, hl]
    · next hup =>
      rw [if_neg hup]
      split at hl
      · simp at hl
      · next hlong =>
        rw [if_neg hlong]
        split at hl
        · simp at hl
        · simp at hl
        · next hdirectory =>
          obtain rfl : l ++ [name] = l' := Except.ok.inj hl
          rw [h hdirectory]

theorem foldlM_enter_of_directoriesIn {t u : Tree} (h : DirectoriesIn t u) {names : List String}
    {l l' : Location} (hl : names.foldlM t.enter l = .ok l') :
  names.foldlM u.enter l = .ok l'
  := by
  induction names generalizing l with
  | nil => exact hl
  | cons name names ih =>
    rw [List.foldlM_cons, bind_eq_ok_iff] at hl ⊢
    obtain ⟨k, hk, hl⟩ := hl
    exact ⟨k, enter_of_directory hk (h k), ih hl⟩

/-- The text of a path is one that can be followed. -/
def IsFollowable (p : Path) : Prop :=
  '\x00' ∉ p.text.toList ∧ p.text ≠ "" ∧ p.text.utf8ByteSize ≤ longestPath

/-- Where a path leads: through the names before the last one that is not empty, and on to
that one. -/
theorem place_eq_ok_iff {t : Tree} {p : Path} {place : Place} :
  t.place p = .ok place ↔ IsFollowable p ∧
    match p.names.reverse.dropWhile (· = "") with
    | [] => .top [] = place
    | name :: before => ∃ l, before.reverse.foldlM t.enter [] = .ok l ∧
      if name = "." ∨ name = ".." then ∃ l', t.enter l name = .ok l' ∧ .top l' = place
      else name.utf8ByteSize ≤ longestName
        ∧ .entry l name (p.names.reverse.head? = some "") = place
  := by
  simp only [Tree.place, IsFollowable]
  by_cases hnul : '\x00' ∈ p.text.toList
  · simp [hnul]
  by_cases hempty : p.text = ""
  · simp [hempty]
  by_cases hlong : longestPath < p.text.utf8ByteSize
  · simp [hnul, hempty, hlong]
  have hshort : p.text.utf8ByteSize ≤ longestPath := Nat.le_of_not_lt hlong
  simp only [List.contains_eq_mem, hnul, hempty, hlong, hshort, decide_false, Bool.false_eq_true,
    if_false, not_false_eq_true, ne_eq, true_and]
  cases p.names.reverse.dropWhile (· = "") with
  | nil => simp
  | cons name before =>
    simp only
    rw [bind_eq_ok_iff]
    apply exists_congr
    intro l
    apply and_congr_right
    intro hl
    by_cases hdots : name = "." ∨ name = ".."
    · rw [if_pos (by simpa using hdots), if_pos hdots, bind_eq_ok_iff]
      simp
    · rw [if_neg (by simpa using hdots), if_neg hdots]
      by_cases hname : longestName < name.utf8ByteSize
      · simp [hname]
      · simp [hname, Nat.le_of_not_lt hname]

/-- A path leads to the same place in a tree in which its names lead as far. -/
theorem place_of_prefixes {t u : Tree} {p : Path}
    (h : ∀ ns l, ns <+: p.names → ns.foldlM t.enter [] = .ok l → ns.foldlM u.enter [] = .ok l)
    {place : Place} (hp : t.place p = .ok place) :
  u.place p = .ok place
  := by
  rw [place_eq_ok_iff] at hp ⊢
  obtain ⟨hfollowable, hp⟩ := hp
  refine ⟨hfollowable, ?_⟩
  split
  · next hnames =>
    rw [hnames] at hp
    exact hp
  · next name before hnames =>
    have hsuffix : name :: before <:+ p.names.reverse := hnames ▸ List.dropWhile_suffix _
    have hbegins : before.reverse ++ [name] <+: p.names := by
      simpa using List.reverse_prefix.mpr hsuffix
    rw [hnames] at hp
    obtain ⟨l, hl, hp⟩ := hp
    have hl' := h _ l ((List.prefix_append _ _).trans hbegins) hl
    refine ⟨l, hl', ?_⟩
    split
    · next hdots =>
      rw [if_pos hdots] at hp
      obtain ⟨k, hk, rfl⟩ := hp
      have hwhole : (before.reverse ++ [name]).foldlM t.enter [] = .ok k := by
        rw [List.foldlM_append, bind_eq_ok_iff]
        exact ⟨l, hl, by simp [hk]⟩
      have hwhole' := h _ k hbegins hwhole
      rw [List.foldlM_append, bind_eq_ok_iff] at hwhole'
      obtain ⟨l', hsame, hk'⟩ := hwhole'
      obtain rfl : l = l' := Except.ok.inj (hl'.symm.trans hsame)
      exact ⟨k, by simpa using hk', rfl⟩
    · next hdots =>
      rwa [if_neg hdots] at hp

/-- A path leads to the same place in a tree with more directories. -/
theorem place_of_directoriesIn {t u : Tree} (h : DirectoriesIn t u) {p : Path} {place : Place}
    (hp : t.place p = .ok place) :
  u.place p = .ok place
  := place_of_prefixes (fun _ _ _ hl => foldlM_enter_of_directoriesIn h hl) hp

/-- What a write has done: the path leads to a name in a directory, where no directory was. -/
theorem write_eq_ok {t u : Tree} {p : Path} {c : Bytes} (h : t.write p c = .ok u) :
  ∃ folder name, t.place p = .ok (.entry folder name false)
    ∧ t.node? (folder ++ [name]) ≠ some .directory
    ∧ u = t.put (folder ++ [name]) (.file c)
  := by
  obtain ⟨place, hplace, h⟩ := bind_eq_ok_iff.mp h
  cases place with
  | top l => simp at h
  | entry folder name closed =>
    simp only at h
    split at h
    · simp at h
    · next hopen =>
      simp only [Bool.or_eq_true, decide_eq_true_eq, not_or, Bool.not_eq_true] at hopen
      obtain ⟨rfl, hdirectory⟩ := hopen
      exact ⟨folder, name, hplace, hdirectory, (Except.ok.inj h).symm⟩

/-- What a move has done: the file at the one place is now at the other. -/
theorem move_eq_ok {t u : Tree} {p q : Path} (h : t.move p q = .ok u) :
  ∃ folder name folder' name' c, t.place p = .ok (.entry folder name false)
    ∧ t.place q = .ok (.entry folder' name' false)
    ∧ t.node? (folder ++ [name]) = some (.file c)
    ∧ t.node? (folder' ++ [name']) ≠ some .directory
    ∧ u = (t.erase (folder ++ [name])).put (folder' ++ [name']) (.file c)
  := by
  obtain ⟨origin, horigin, h⟩ := bind_eq_ok_iff.mp h
  rw [bind_eq_ok_iff] at h
  obtain ⟨goal, hgoal, h⟩ := h
  cases origin with
  | top l => simp at h
  | entry folder name closed =>
    cases goal with
    | top l => simp at h
    | entry folder' name' closed' =>
      simp only at h
      split at h
      · simp at h
      · simp at h
      · next c hnode =>
        split at h
        · simp at h
        · next hclosed =>
          split at h
          · simp at h
          · next hdirectory =>
            simp only [Bool.or_eq_true, not_or, Bool.not_eq_true] at hclosed
            obtain ⟨rfl, rfl⟩ := hclosed
            exact ⟨folder, name, folder', name', c, horigin, hgoal, hnode, hdirectory,
              (Except.ok.inj h).symm⟩

/-- A file that is put where no directory was makes and hides no directory. -/
theorem directoriesIn_put {t : Tree} {l : Location} (h : t.node? l ≠ some .directory) (c : Bytes) :
  DirectoriesIn t (t.put l (.file c))
  := by
  intro k hk
  have hne : k ≠ l := by
    rintro rfl
    exact h hk
  rw [node?_put_ne t _ hne, hk]

theorem put_directoriesIn {t : Tree} {l : Location} (hl : l ≠ []) (c : Bytes) :
  DirectoriesIn (t.put l (.file c)) t
  := by
  intro k hk
  by_cases hne : k = l
  · subst hne
    rw [node?_put_self t _ hl] at hk
    simp at hk
  · rwa [node?_put_ne t _ hne] at hk

theorem directoriesIn_erase {t : Tree} {l : Location} (h : t.node? l ≠ some .directory) :
  DirectoriesIn t (t.erase l)
  := by
  intro k hk
  have hne : k ≠ l := by
    rintro rfl
    exact h hk
  rw [node?_erase_ne t hne, hk]

theorem erase_directoriesIn {t : Tree} {l : Location} (hl : l ≠ []) :
  DirectoriesIn (t.erase l) t
  := by
  intro k hk
  by_cases hne : k = l
  · subst hne
    rw [node?_erase_self t hl] at hk
    simp at hk
  · rwa [node?_erase_ne t hne] at hk

/-- A move makes and hides no directory. -/
theorem directoriesIn_move {t u : Tree} {p q : Path} (h : t.move p q = .ok u) :
  DirectoriesIn t u ∧ DirectoriesIn u t
  := by
  obtain ⟨folder, name, folder', name', c, -, -, hnode, hfree, rfl⟩ := move_eq_ok h
  have hfile : t.node? (folder ++ [name]) ≠ some .directory := by
    rw [hnode]
    simp
  have herase := erase_directoriesIn (t := t) (l := folder ++ [name]) (by simp)
  constructor
  · intro l hl
    exact directoriesIn_put (mt (herase _) hfree) c l (directoriesIn_erase hfile l hl)
  · intro l hl
    exact herase l (put_directoriesIn (by simp) c l hl)

/-- A file is read where its place is. -/
theorem read_of_place {t : Tree} {p : Path} {folder : Location} {name : String} {c : Bytes}
    (hplace : t.place p = .ok (.entry folder name false))
    (hnode : t.node? (folder ++ [name]) = some (.file c)) :
  t.read p = .ok c
  := by
  simp [Tree.read, Tree.resolve, hplace, hnode, bind, Except.bind]

end Tree

/-! ### Artifacts -/

namespace Storage

variable {m : Type → Type} [Monad m] [Storage m]

/-- Commit an artifact; the temporary file does not outlive a failure. -/
def commitOrClean (p : Path) (filling : Filling) : ExceptT FileFault m Unit :=
  tryCatch (commit p filling) fun e => do
    tryCatch (remove p.temporary) fun _ => pure ()
    throw e

/-- To make no directory changes nothing. -/
theorem createAll_nil_bind {ε : Type} (f : FileFault → ε) (x : ExceptT ε (StateM Tree) Unit) :
  ((createAll [] : ExceptT FileFault (StateM Tree) Unit).adapt f >>= fun _ => x) = x
  := rfl

/-- An artifact is written when the directories it lies in were made. -/
theorem writeAtomic_eq (p : Path) (filling : Filling) :
  ∃ fault, (writeAtomic p filling : ExceptT Fault (StateM Tree) Unit)
    = (createAll p.folders).adapt fault >>= fun _ => located p (commitOrClean p filling)
  := by
  cases hfolder : p.parent? with
  | none =>
    have hnone : p.folders = [] := by rw [Path.folders, hfolder, Option.elim_none]
    refine ⟨fun e => .input p (.file e), ?_⟩
    rw [hnone, createAll_nil_bind, writeAtomic, hfolder]
    rfl
  | some folder =>
    refine ⟨fun e => .input folder (.file e), ?_⟩
    rw [Path.folders_of_parent? hfolder, writeAtomic, hfolder]
    dsimp only
    split
    · rfl
    · next hempty =>
      obtain rfl : folder = ⟨""⟩ := congrArg Path.mk (not_not.mp hempty)
      have hnone : (Path.mk "").ancestors = [] := by decide
      rw [hnone, createAll_nil_bind]
      rfl

variable {p : Path} {filling : Filling} {t u : Tree}

/-- What a commit has done that comes to its end. -/
theorem commit_eq_ok_iff :
  onTree (commit p filling) t = (.ok (), u) ↔ filling.failure? = none
    ∧ ∃ v, t.write p.temporary filling.content = .ok v ∧ v.move p.temporary p = .ok u
  := by
  obtain ⟨content, failure?⟩ := filling
  rw [commit, onTree_bind_eq_ok_iff]
  cases failure? with
  | none =>
    constructor
    · rintro ⟨⟨⟩, v, hwrite, hmove⟩
      exact ⟨rfl, v, onTree_write_eq_ok_iff.mp hwrite, onTree_move_eq_ok_iff.mp hmove⟩
    · rintro ⟨-, v, hwrite, hmove⟩
      exact ⟨(), v, onTree_write_eq_ok_iff.mpr hwrite, onTree_move_eq_ok_iff.mpr hmove⟩
  | some e =>
    constructor
    · rintro ⟨⟨⟩, v, -, hthrow⟩
      rw [onTree_bind, onTree_throw] at hthrow
      simp at hthrow
    · simp

/-- A commit that fails has written the temporary file or nothing. -/
theorem commit_eq_error {e : FileFault} (h : onTree (commit p filling) t = (.error e, u)) :
  u = t ∨ t.write p.temporary filling.content = .ok u
  := by
  rcases onTree_bind_eq_error_iff.mp h with hwrite | ⟨⟨⟩, v, hwrite, h⟩
  · exact .inl (onTree_attempt_eq_error hwrite)
  · right
    obtain rfl : u = v := by
      dsimp only at h
      split at h
      · exact (Prod.mk.inj h).2.symm
      · exact onTree_attempt_eq_error h
    exact onTree_write_eq_ok_iff.mp hwrite

/-- A failure is told after the temporary file was removed, or could not be removed. -/
theorem onTree_clean (p : Path) (e : FileFault) (t : Tree) :
  onTree (do
    tryCatch (remove p.temporary) fun _ => pure ()
    throw e : ExceptT FileFault (StateM Tree) Unit) t
    = (.error e, (onTree (remove p.temporary : ExceptT FileFault (StateM Tree) Unit) t).2)
  := by
  rw [onTree_bind, onTree_tryCatch]
  rcases onTree (remove p.temporary : ExceptT FileFault (StateM Tree) Unit) t with ⟨_ | _, w⟩
  · rfl
  · rfl

theorem commitOrClean_eq_ok_iff :
  onTree (commitOrClean p filling) t = (.ok (), u) ↔ onTree (commit p filling) t = (.ok (), u)
  := by
  rw [commitOrClean, onTree_tryCatch]
  rcases onTree (commit p filling : ExceptT FileFault (StateM Tree) Unit) t with ⟨e | ⟨⟩, v⟩
  · dsimp only
    rw [onTree_clean]
    simp
  · rfl

/-- Where a commit fails, the temporary file is removed. -/
theorem commitOrClean_eq_error {e : FileFault}
    (h : onTree (commitOrClean p filling) t = (.error e, u)) :
  ∃ v, (v = t ∨ t.write p.temporary filling.content = .ok v)
    ∧ u = (onTree (remove p.temporary : ExceptT FileFault (StateM Tree) Unit) v).2
  := by
  obtain ⟨e', v, hcommit, hclean⟩ := onTree_tryCatch_eq_error_iff.mp h
  rw [onTree_clean] at hclean
  exact ⟨v, commit_eq_error hcommit, (Prod.mk.inj hclean).2.symm⟩

/-- An artifact is written by a commit that comes to its end. -/
theorem writeAtomic_eq_ok_iff :
  onTree (writeAtomic p filling) t = (.ok (), u)
    ↔ ∃ v, onTree (createAll p.folders : ExceptT FileFault (StateM Tree) Unit) t = (.ok (), v)
      ∧ onTree (commit p filling) v = (.ok (), u)
  := by
  obtain ⟨fault, heq⟩ := writeAtomic_eq p filling
  rw [heq, onTree_bind_eq_ok_iff]
  simp only [located, onTree_adapt_eq_ok_iff, commitOrClean_eq_ok_iff]
  constructor
  · rintro ⟨⟨⟩, v, hcreate, hcommit⟩
    exact ⟨v, hcreate, hcommit⟩
  · rintro ⟨v, hcreate, hcommit⟩
    exact ⟨(), v, hcreate, hcommit⟩

/-- Where writing an artifact fails, a directory could not be made, or the commit failed. -/
theorem writeAtomic_eq_error {e : Fault} (h : onTree (writeAtomic p filling) t = (.error e, u)) :
  (∃ e', onTree (createAll p.folders : ExceptT FileFault (StateM Tree) Unit) t = (.error e', u))
    ∨ ∃ v e', onTree (createAll p.folders : ExceptT FileFault (StateM Tree) Unit) t = (.ok (), v)
      ∧ onTree (commitOrClean p filling) v = (.error e', u)
  := by
  obtain ⟨fault, heq⟩ := writeAtomic_eq p filling
  rw [heq] at h
  rcases onTree_bind_eq_error_iff.mp h with hcreate | ⟨⟨⟩, v, hcreate, hcommit⟩
  · obtain ⟨e', hcreate, -⟩ := onTree_adapt_eq_error_iff.mp hcreate
    exact .inl ⟨e', hcreate⟩
  · obtain ⟨e', hcommit, -⟩ := onTree_adapt_eq_error_iff.mp hcommit
    exact .inr ⟨v, e', onTree_adapt_eq_ok_iff.mp hcreate, hcommit⟩

/-- What a commit has done: the file that was written at the temporary path is now at the
path itself. -/
theorem commit_eq_ok (h : onTree (commit p filling) t = (.ok (), u)) :
  ∃ v folder name folder' name', t.write p.temporary filling.content = .ok v
    ∧ v.place p.temporary = .ok (.entry folder name false)
    ∧ v.place p = .ok (.entry folder' name' false)
    ∧ Tree.DirectoriesIn v u ∧ Tree.DirectoriesIn u v
    ∧ u = (v.erase (folder ++ [name])).put (folder' ++ [name']) (.file filling.content)
  := by
  obtain ⟨-, v, hwrite, hmove⟩ := commit_eq_ok_iff.mp h
  obtain ⟨hin, hout⟩ := Tree.directoriesIn_move hmove
  obtain ⟨folder, name, hplace, hfree, rfl⟩ := Tree.write_eq_ok hwrite
  obtain ⟨origin, source, goal, target, c', hsource, htarget, hnode, -, rfl⟩ :=
    Tree.move_eq_ok hmove
  -- the temporary path still leads to where it led before the write
  have hsame := Tree.place_of_directoriesIn (Tree.put_directoriesIn (by simp) filling.content) hsource
  obtain ⟨rfl, rfl⟩ : folder = origin ∧ name = source := by
    rw [hplace] at hsame
    simpa using hsame
  obtain rfl : filling.content = c' := by
    rw [Tree.node?_put_self _ _ (by simp)] at hnode
    simpa using hnode
  exact ⟨_, folder, name, goal, target, hwrite, hsource, htarget, hin, hout, rfl⟩

/-- An artifact that was written is what is read at its place. -/
theorem read_writeAtomic (h : onTree (writeAtomic p filling) t = (.ok (), u)) :
  u.read p = .ok filling.content
  := by
  obtain ⟨t', -, hcommit⟩ := writeAtomic_eq_ok_iff.mp h
  obtain ⟨v, folder, name, folder', name', -, -, hplace, hdirectories, -, hu⟩ :=
    commit_eq_ok hcommit
  apply Tree.read_of_place (Tree.place_of_directoriesIn hdirectories hplace)
  rw [hu]
  exact Tree.node?_put_self _ _ (by simp)

end Storage

end CorpusAudit
