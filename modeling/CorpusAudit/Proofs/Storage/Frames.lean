import CorpusAudit.Proofs.Storage.Closedness

/-!
# What programs leave as it is

A program `Leads` from trees to related ones if it does so step by step.  For writing an
artifact this gives what is true however it ends: a tree without loose ends stays one
(`leads_isClosed_writeAtomic`).  When it succeeds, nothing is left at the temporary path
(`isPresent_temporary`); when it fails, the path leads to what it led to before, if it led to
a place (`resolve_of_place`) or does not go up (`resolve_of_writeAtomic_error`).
-/

namespace CorpusAudit

variable {ε ε' α β : Type} {R : Tree → Tree → Prop}

/-- A relation between trees that is kept when nothing is done, and by one step after the
other. -/
structure IsFrame (R : Tree → Tree → Prop) : Prop where
  refl : ∀ t, R t t
  trans : ∀ {s t u}, R s t → R t u → R s u

/-- Whatever the program comes to, the tree that it leaves is related to the one it was run
on. -/
def Leads (R : Tree → Tree → Prop) (x : ExceptT ε (StateM Tree) α) : Prop :=
  ∀ t, R t (onTree x t).2

namespace Leads

theorem pure (hR : IsFrame R) (a : α) :
  Leads R (Pure.pure a : ExceptT ε (StateM Tree) α)
  := hR.refl

theorem throw (hR : IsFrame R) (e : ε) :
  Leads R (MonadExcept.throw e : ExceptT ε (StateM Tree) α)
  := hR.refl

theorem bind (hR : IsFrame R) {x : ExceptT ε (StateM Tree) α}
    {f : α → ExceptT ε (StateM Tree) β} (hx : Leads R x) (hf : ∀ a, Leads R (f a)) :
  Leads R (x >>= f)
  := by
  intro t
  have hfirst := hx t
  rw [onTree_bind]
  generalize onTree x t = outcome at hfirst ⊢
  rcases outcome with ⟨_ | a, t'⟩
  · exact hfirst
  · exact hR.trans hfirst (hf a t')

theorem tryCatch (hR : IsFrame R) {x : ExceptT ε (StateM Tree) α}
    {f : ε → ExceptT ε (StateM Tree) α} (hx : Leads R x) (hf : ∀ e, Leads R (f e)) :
  Leads R (MonadExcept.tryCatch x f)
  := by
  intro t
  have hfirst := hx t
  rw [onTree_tryCatch]
  generalize onTree x t = outcome at hfirst ⊢
  rcases outcome with ⟨e | _, t'⟩
  · exact hR.trans hfirst (hf e t')
  · exact hfirst

theorem adapt (f : ε → ε') {x : ExceptT ε (StateM Tree) α} (hx : Leads R x) :
  Leads R (x.adapt f)
  := by
  intro t
  rw [onTree_adapt]
  exact hx t

theorem attempt (hR : IsFrame R) {f : Tree → Except FileFault Tree}
    (hf : ∀ t u, f t = .ok u → R t u) :
  Leads R (Tree.attempt f)
  := by
  intro t
  rw [onTree_attempt]
  cases hu : f t with
  | error e => exact hR.refl t
  | ok u => exact hf t u hu

/-- Looking something up changes nothing. -/
theorem inspect (hR : IsFrame R) (f : Tree → α) :
  Leads R (liftM (Tree.inspect f) : ExceptT ε (StateM Tree) α)
  := hR.refl

theorem createAll (hR : IsFrame R) {folders : List Path}
    (hcreate : ∀ q ∈ folders, ∀ t u, t.createDirectory q = .ok u → R t u) :
  Leads R (Storage.createAll folders : ExceptT FileFault (StateM Tree) Unit)
  := by
  induction folders with
  | nil => exact Leads.pure hR ()
  | cons q above ih =>
    have hdirectory : Leads R (Storage.createDirectory q : ExceptT FileFault (StateM Tree) Unit) :=
      attempt hR (hcreate q List.mem_cons_self)
    have hunless (e : FileFault) : Leads R (do
        if !(← (Storage.isDirectory q : StateM Tree Bool)) then MonadExcept.throw e
        : ExceptT FileFault (StateM Tree) Unit) := by
      apply bind hR (inspect hR _)
      intro isThere
      cases isThere
      · exact throw hR e
      · exact pure hR ()
    rw [Storage.createAll]
    apply tryCatch hR hdirectory
    intro e
    split
    · apply bind hR (ih fun p hp => hcreate p (List.mem_cons_of_mem _ hp))
      intro _
      exact tryCatch hR hdirectory hunless
    · exact hunless e

end Leads

namespace Storage

variable {p : Path} {filling : Filling} {t u : Tree} {e : Fault}

/-- An artifact is written step by step. -/
theorem leads_commit (hR : IsFrame R)
    (hwrite : Leads R (write p.temporary filling.content : ExceptT FileFault (StateM Tree) Unit))
    (hmove : Leads R (move p.temporary p : ExceptT FileFault (StateM Tree) Unit)) :
  Leads R (commit p filling : ExceptT FileFault (StateM Tree) Unit)
  := by
  unfold commit
  apply Leads.bind hR hwrite
  intro _
  dsimp only
  split
  · exact Leads.bind hR (Leads.throw hR _) fun _ => hmove
  · exact hmove

theorem leads_commitOrClean (hR : IsFrame R)
    (hwrite : Leads R (write p.temporary filling.content : ExceptT FileFault (StateM Tree) Unit))
    (hmove : Leads R (move p.temporary p : ExceptT FileFault (StateM Tree) Unit))
    (hremove : Leads R (remove p.temporary : ExceptT FileFault (StateM Tree) Unit)) :
  Leads R (commitOrClean p filling : ExceptT FileFault (StateM Tree) Unit)
  := by
  apply Leads.tryCatch hR (leads_commit hR hwrite hmove)
  intro e
  apply Leads.bind hR
  · exact Leads.tryCatch hR hremove fun _ => Leads.pure hR ()
  · intro _
    exact Leads.throw hR e

/-- An artifact is written by the operations on files, so what they keep is kept. -/
theorem leads_writeAtomic (hR : IsFrame R)
    (hcreate : ∀ q t u, t.createDirectory q = .ok u → R t u)
    (hwrite : ∀ q c t u, t.write q c = .ok u → R t u)
    (hmove : ∀ q q' t u, t.move q q' = .ok u → R t u)
    (hremove : ∀ q t u, t.remove q = .ok u → R t u) :
  Leads R (writeAtomic p filling : ExceptT Fault (StateM Tree) Unit)
  := by
  obtain ⟨fault, heq⟩ := writeAtomic_eq p filling
  rw [heq]
  apply Leads.bind hR
  · exact Leads.adapt _ (Leads.createAll hR fun q _ => hcreate q)
  · intro _
    apply Leads.adapt
    apply leads_commitOrClean hR
    · exact Leads.attempt hR (hwrite p.temporary filling.content)
    · exact Leads.attempt hR (hmove p.temporary p)
    · exact Leads.attempt hR (hremove p.temporary)

/-! ### Loose ends -/

theorem isFrame_isClosed :
  IsFrame fun t u => t.IsClosed → u.IsClosed
  := ⟨fun _ ht => ht, fun hst htu hs => htu (hst hs)⟩

theorem leads_isClosed_createAll (folders : List Path) :
  Leads (fun t u => t.IsClosed → u.IsClosed)
    (createAll folders : ExceptT FileFault (StateM Tree) Unit)
  := Leads.createAll isFrame_isClosed fun _ _ _ _ h ht => ht.createDirectory h

/-- Writing an artifact leaves no loose ends, however it ends. -/
theorem leads_isClosed_writeAtomic (p : Path) (filling : Filling) :
  Leads (fun t u => t.IsClosed → u.IsClosed)
    (writeAtomic p filling : ExceptT Fault (StateM Tree) Unit)
  := leads_writeAtomic isFrame_isClosed (fun _ _ _ h ht => ht.createDirectory h)
    (fun _ _ _ _ h ht => ht.write h) (fun _ _ _ _ h ht => ht.move h)
    (fun _ _ _ h ht => ht.remove h)

/-! ### Temporary files -/

/-- The trees have the same directories, and differ only where a path leads. -/
structure OnlyAt (q : Path) (t u : Tree) : Prop where
  directory : ∀ l, t.node? l = some .directory ↔ u.node? l = some .directory
  node : ∀ l, (∀ folder name closed, t.place q = .ok (.entry folder name closed) →
    l ≠ folder ++ [name]) → u.node? l = t.node? l

namespace OnlyAt

variable {q : Path}

theorem place (h : OnlyAt q t u) {place : Tree.Place} (hp : t.place p = .ok place) :
  u.place p = .ok place
  := Tree.place_of_directoriesIn (fun l => (h.directory l).mp) hp

theorem place_back (h : OnlyAt q t u) {place : Tree.Place} (hp : u.place p = .ok place) :
  t.place p = .ok place
  := Tree.place_of_directoriesIn (fun l => (h.directory l).mpr) hp

theorem isFrame (q : Path) :
  IsFrame (OnlyAt q)
  where
  refl t := ⟨fun _ => Iff.rfl, fun _ _ => rfl⟩
  trans hst htu :=
    { directory := fun l => (hst.directory l).trans (htu.directory l)
      node := fun l hl => by
        rw [htu.node l, hst.node l hl]
        intro folder name closed hplace
        exact hl folder name closed (hst.place_back hplace) }

theorem write {c : Bytes} (h : t.write q c = .ok u) :
  OnlyAt q t u
  := by
  obtain ⟨folder, name, hplace, hnode, rfl⟩ := Tree.write_eq_ok h
  constructor
  · intro l
    exact ⟨Tree.directoriesIn_put hnode c l, Tree.put_directoriesIn (by simp) c l⟩
  · intro l hl
    exact Tree.node?_put_ne t _ (hl folder name false hplace)

theorem remove (h : t.remove q = .ok u) :
  OnlyAt q t u
  := by
  obtain ⟨folder, name, closed, hplace, hnode, rfl⟩ := Tree.remove_eq_ok h
  constructor
  · intro l
    exact ⟨Tree.directoriesIn_erase hnode l, Tree.erase_directoriesIn (by simp) l⟩
  · intro l hl
    exact Tree.node?_erase_ne t (hl folder name closed hplace)

/-- What differs at the temporary path is not what the path leads to. -/
theorem resolve (h : OnlyAt p.temporary t u) {place : Tree.Place} (hp : t.place p = .ok place) :
  u.resolve p = t.resolve p
  := by
  apply Tree.resolve_congr hp (h.place hp)
  rintro folder name closed rfl
  apply h.node
  intro folder' name' closed' htemporary
  obtain ⟨rfl, rfl⟩ := Tree.place_temporary hp htemporary
  simpa using Tree.ne_temporary name

end OnlyAt

/-- A commit that fails has changed nothing but the temporary file. -/
theorem onlyAt_of_commitOrClean_error {e : FileFault}
    (h : onTree (commitOrClean p filling) t = (.error e, u)) :
  OnlyAt p.temporary t u
  := by
  have hR := OnlyAt.isFrame p.temporary
  obtain ⟨v, hv, hu⟩ := commitOrClean_eq_error h
  have hwrite : OnlyAt p.temporary t v := by
    rcases hv with rfl | hwrite
    · exact hR.refl v
    · exact OnlyAt.write hwrite
  have hremove : Leads (OnlyAt p.temporary)
      (remove p.temporary : ExceptT FileFault (StateM Tree) Unit) :=
    Leads.attempt hR fun _ _ => OnlyAt.remove
  rw [hu]
  exact hR.trans hwrite (hremove v)

/-- Nothing is left at the temporary path of an artifact that was written. -/
theorem isPresent_temporary (h : onTree (writeAtomic p filling) t = (.ok (), u)) :
  u.isPresent p.temporary = false
  := by
  obtain ⟨t', -, hcommit⟩ := writeAtomic_eq_ok_iff.mp h
  obtain ⟨v, folder, name, folder', name', -, hsource, hplace, hdirectories, -, rfl⟩ :=
    commit_eq_ok hcommit
  obtain ⟨rfl, rfl⟩ := Tree.place_temporary hplace hsource
  have hnone : ((v.erase (folder ++ [name' ++ ".tmp"])).put (folder ++ [name'])
      (.file filling.content)).node? (folder ++ [name' ++ ".tmp"]) = none := by
    rw [Tree.node?_put_ne _ _ (by simp)]
    exact Tree.node?_erase_self v (by simp)
  simp [Tree.isPresent, Tree.resolve, Tree.place_of_directoriesIn hdirectories hsource, hnone,
    bind, Except.bind]

/-! ### Failures -/

/-- Where writing an artifact fails, the directories it lies in were made, or some of them,
and nothing else was changed but the temporary file. -/
theorem onlyAt_of_writeAtomic_error (h : onTree (writeAtomic p filling) t = (.error e, u)) :
  OnlyAt p.temporary (onTree (createAll p.folders : ExceptT FileFault (StateM Tree) Unit) t).2 u
  := by
  rcases writeAtomic_eq_error h with ⟨e', hcreate⟩ | ⟨v, e', hcreate, hcommit⟩
  · rw [hcreate]
    exact (OnlyAt.isFrame _).refl u
  · rw [hcreate]
    exact onlyAt_of_commitOrClean_error hcommit

/-- No directory is made for a path that leads somewhere. -/
theorem createAll_of_place {place : Tree.Place} (hp : t.place p = .ok place) :
  (onTree (createAll p.folders : ExceptT FileFault (StateM Tree) Unit) t).2 = t
  := by
  have hframe : IsFrame fun v w => v = t → w = t := ⟨fun _ hv => hv, fun hvw hwx hv => hwx (hvw hv)⟩
  refine Leads.createAll hframe ?_ t rfl
  rintro q hq v w hcreate rfl
  exact absurd hcreate (Tree.createDirectory_folder hp hq)

/-- The directories that a path lies in are not made where the path itself leads. -/
theorem node_createAll (hup : ".." ∉ p.names) :
  (onTree (createAll p.folders : ExceptT FileFault (StateM Tree) Unit) t).2.node?
    (Tree.location p.names) = t.node? (Tree.location p.names)
  := by
  have hframe : IsFrame fun v w : Tree =>
      w.node? (Tree.location p.names) = v.node? (Tree.location p.names) :=
    ⟨fun _ => rfl, fun hvw hwx => hwx.trans hvw⟩
  refine Leads.createAll hframe ?_ t
  intro q hq v w hcreate
  obtain ⟨inside, name, closed, hplace, -, rfl⟩ := Tree.createDirectory_eq_ok hcreate
  have hinside := Tree.location_of_place_entry (Tree.up_not_mem_folder hup hq) hplace
  rw [hinside]
  exact Tree.node?_put_ne v _ (Tree.location_folder_ne hq).symm

/-- What a path that does not go up leads to after a failure, it led to before. -/
theorem resolve_of_writeAtomic_error (ht : t.IsClosed)
    (h : onTree (writeAtomic p filling) t = (.error e, u)) (hup : ".." ∉ p.names) {l : Location}
    {n : Node} (hafter : u.resolve p = .ok (l, n)) :
  t.resolve p = .ok (l, n)
  := by
  have honly := onlyAt_of_writeAtomic_error h
  have hclosed := leads_isClosed_createAll p.folders t ht
  have hnode := node_createAll (t := t) hup
  generalize (onTree (createAll p.folders : ExceptT FileFault (StateM Tree) Unit) t).2 = v at *
  obtain ⟨place, hplace, -⟩ := bind_eq_ok_iff.mp hafter
  rw [honly.resolve (honly.place_back hplace)] at hafter
  have hl := Tree.location_of_resolve hup hafter
  have hthere : t.node? l = some n := by
    rw [hl, ← hnode, ← hl]
    exact hclosed.resolve hafter
  exact Tree.resolve_of_node ht hclosed hup hafter hthere

/-- What a path leads to is the same after a failure. -/
theorem resolve_of_place (h : onTree (writeAtomic p filling) t = (.error e, u))
    {place : Tree.Place} (hp : t.place p = .ok place) :
  u.resolve p = t.resolve p
  := by
  have honly := onlyAt_of_writeAtomic_error h
  rw [createAll_of_place hp] at honly
  exact honly.resolve hp

end Storage

end CorpusAudit
