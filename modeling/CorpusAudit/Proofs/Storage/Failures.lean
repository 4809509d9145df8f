import CorpusAudit.Proofs.Storage.Atomicity

/-!
# What a failure leaves

When writing an artifact fails, directories that its path lies in may have been made, and a
file at its temporary path may be gone, but nothing else has changed (`Tree.SparesFiles`,
`Tree.AddsFolders`).  The path leads to what it led to before, unless it goes up and a
directory on it was missing (`found?_of_writeAtomic_error`).  In that case it may lead to a
directory that was made, or to something that was there before (`Tree.node_of_resolve`).
-/

namespace CorpusAudit

namespace Tree

variable {t u : Tree} {p : Path} {l l' : Location}

/-! ### Missing directories -/

namespace AddsOnly

variable {folders : List Path}

/-- A name that leads on did so before the directories were made, or it led to nothing. -/
theorem enter_back (h : AddsOnly folders t u) {name : String} (hl : u.enter l name = .ok l') :
  t.enter l name = .ok l' ∨ t.enter l name = .error .notFound
  := by
  rcases h l' with hsame | ⟨hnone, -, -⟩
  · exact .inl (enter_of_directory hl fun hdirectory => hsame.symm.trans hdirectory)
  · by_cases hfiller : name = "" ∨ name = "."
    · rw [enter_filler u l hfiller] at hl
      rw [enter_filler t l hfiller]
      exact .inl hl
    · by_cases hup : name = ".."
      · subst hup
        exact .inl (by simpa [Tree.enter] using hl)
      · rw [not_or] at hfiller
        obtain ⟨rfl, -⟩ := enter_eq_ok hfiller hup hl
        have hsize := size_of_enter_eq_ok (by simp [hfiller, hup]) hl
        right
        rw [enter, if_neg (by simp [hfiller]), if_neg hup, if_neg (Nat.not_lt.mpr hsize), hnone]

theorem foldlM_enter_back (h : AddsOnly folders t u) {names : List String}
    (hl : names.foldlM u.enter l = .ok l') :
  names.foldlM t.enter l = .ok l' ∨ names.foldlM t.enter l = .error .notFound
  := by
  induction names generalizing l with
  | nil => exact .inl hl
  | cons name names ih =>
    rw [List.foldlM_cons, bind_eq_ok_iff] at hl
    obtain ⟨k, hk, hl⟩ := hl
    rw [List.foldlM_cons]
    rcases h.enter_back hk with hk | hk <;> rw [hk]
    · exact ih hl
    · exact .inr rfl

/-- A path that leads to a place did so before the directories were made, unless something on
it was missing. -/
theorem place_back (h : AddsOnly folders t u) {place : Place} (hp : u.place p = .ok place)
    (hmissing : t.place p ≠ .error .notFound) :
  t.place p = .ok place
  := by
  obtain ⟨hfollowable, hp⟩ := place_eq_ok_iff.mp hp
  obtain ⟨hnul, hempty, hlong⟩ := hfollowable
  rw [Tree.place, if_neg (by simpa using hnul), if_neg hempty, if_neg (Nat.not_lt.mpr hlong)]
    at hmissing
  rw [place_eq_ok_iff]
  refine ⟨⟨hnul, hempty, hlong⟩, ?_⟩
  cases hnames : p.names.reverse.dropWhile (· = "") with
  | nil =>
    rw [hnames] at hp
    exact hp
  | cons name before =>
    rw [hnames] at hp
    simp only [hnames] at hmissing
    obtain ⟨k, hk, hp⟩ := hp
    rcases h.foldlM_enter_back hk with hk | hk
    · refine ⟨k, hk, ?_⟩
      split
      · next hdots =>
        rw [if_pos hdots] at hp
        rw [hk] at hmissing
        obtain ⟨k', hk', rfl⟩ := hp
        refine ⟨k', (h.enter_back hk').resolve_right fun hnone => hmissing ?_, rfl⟩
        simp [bind, Except.bind, hdots, hnone]
      · next hdots =>
        rwa [if_neg hdots] at hp
    · rw [hk] at hmissing
      exact absurd rfl hmissing

end AddsOnly

/-! ### What a path leads to -/

/-- What a path leads to, and at which place it is. -/
def found? (t : Tree) (p : Path) : Option (Location × Node) :=
  (t.resolve p).toOption

theorem found?_eq_some_iff {found : Location × Node} :
  t.found? p = some found ↔ t.resolve p = .ok found
  := by
  rw [found?]
  cases t.resolve p <;> simp [Except.toOption]

/-- What is read at a path is a matter of what it leads to. -/
theorem read_of_found? (h : u.found? p = t.found? p) {c : Bytes} (hread : t.read p = .ok c) :
  u.read p = .ok c
  := by
  obtain ⟨found, hfound, hfile⟩ := bind_eq_ok_iff.mp hread
  rw [← found?_eq_some_iff, ← h, found?_eq_some_iff] at hfound
  exact bind_eq_ok_iff.mpr ⟨found, hfound, hfile⟩

/-- What a path leads to was there before, or it is a directory that was made. -/
theorem node_of_resolve (hu : u.IsClosed) (hfiles : t.SparesFiles p u)
    (hfolders : t.AddsFolders p u) {n : Node} (h : u.resolve p = .ok (l, n)) :
  t.node? l = some n ∨ n = .directory ∧ ∃ q ∈ p.folders, u.resolve q = .ok (l, .directory)
  := by
  have hnode := hu.resolve h
  cases n with
  | file c => exact .inl (hfiles.old l c hnode)
  | directory =>
    by_cases hold : t.node? l = some .directory
    · exact .inl hold
    · exact .inr ⟨rfl, hfolders.made l hnode hold⟩

end Tree

namespace Storage

variable {p : Path} {filling : Filling} {t u : Tree} {e : Fault}

/-- When writing an artifact fails, the path leads to what it led to before, if nothing on it
was missing or it does not go up. -/
theorem found?_of_writeAtomic_error (ht : t.IsClosed)
    (h : onTree (writeAtomic p filling) t = (.error e, u))
    (hp : t.place p ≠ .error .notFound ∨ ".." ∉ p.names) :
  u.found? p = t.found? p
  := by
  apply Option.ext
  intro found
  rw [Tree.found?_eq_some_iff, Tree.found?_eq_some_iff]
  constructor
  · intro hafter
    rcases hp with hmissing | hup
    · obtain ⟨place, hplace, -⟩ := bind_eq_ok_iff.mp hafter
      have hbefore : t.place p = .ok place :=
        (Tree.AddsOnly.createAll p.folders t).place_back
          ((onlyAt_of_writeAtomic_error h).place_back hplace) hmissing
      rwa [resolve_of_place h hbefore] at hafter
    · exact resolve_of_writeAtomic_error ht h hup hafter
  · intro hbefore
    obtain ⟨place, hplace, -⟩ := bind_eq_ok_iff.mp hbefore
    rwa [resolve_of_place h hplace]

/-- A path that goes up through a missing directory leads to the old file once the directory
was made. -/
example :
  let t : Tree := ⟨[(["b"], .file [1]), (["b.tmp"], .directory)]⟩
  t.found? ⟨"a/../b"⟩ = none
    ∧ (onTree (writeAtomic ⟨"a/../b"⟩ ⟨[2], none⟩ : ExceptT Fault (StateM Tree) Unit) t).2.found?
      ⟨"a/../b"⟩ = some (["b"], .file [1])
  := by decide +kernel

end Storage

end CorpusAudit
