import CorpusAudit.Proofs.Review.Rereading
import CorpusAudit.Proofs.Storage.Listing
import CorpusAudit.Proofs.Storage.Searching

/-!
# Directories of reviews

The summary of a directory is made from those of its review files that can be read
(`onTree_ofDirectory`).  Where only one file of the directory is a review file, it is the one
that is found, and it is found once (`found_of_only`); but a search that is lost finds none
(`found_of_isLost`).
-/

namespace CorpusAudit.ReviewSummary

variable {t : Tree} {dir p : Path} {l : Location} {name : String}

/-! ### Reading files -/

/-- The reviews in the file at a path, if they can be read. -/
def reviews? (t : Tree) (p : Path) : Option (List ReviewItem) :=
  (t.read p).toOption.bind fun bytes => (Json.ofBytes? bytes).bind decodeFile

/-- The files at the paths that hold reviews, with their reviews. -/
def readable (t : Tree) (ps : List Path) : List (Path × List ReviewItem) :=
  ps.filterMap fun p => (reviews? t p).map fun items => (p, items)

theorem onTree_tryRead (t : Tree) (p : Path) :
  onTree (tryCatch (do return some (← Storage.readJson decodeFile p)) fun _ => pure none
    : ExceptT Fault (StateM Tree) (Option (List ReviewItem))) t = (.ok (reviews? t p), t)
  := by
  rw [onTree_tryCatch, onTree_bind, Storage.readJson, onTree_bind, Storage.readDocument,
    onTree_adapt, onTree_read, reviews?]
  cases t.read p with
  | error e => rfl
  | ok bytes =>
    dsimp only [Except.mapError, Except.toOption, Option.bind_some]
    cases (Json.ofBytes? bytes).bind decodeFile <;> rfl

/-- Files that cannot be read are left out. -/
theorem onTree_readAll (ps : List Path) (t : Tree) :
  onTree (readAll ps) t = (.ok (readable t ps), t)
  := by
  induction ps with
  | nil => rfl
  | cons p ps ih =>
    rw [readAll, onTree_bind, onTree_tryRead]
    dsimp only
    rw [onTree_bind, ih]
    simp only [readable, List.filterMap_cons]
    cases reviews? t p <;> rfl

/-- The review files that are found in a directory, with their reviews. -/
def found (t : Tree) (dir : Path) (l : Location) : List (Path × List ReviewItem) :=
  readable t (pathsIn dir (reviewFiles (t.names l)))

/-- A directory is summarized by the review files that are found in it. -/
theorem onTree_ofDirectory (h : t.resolve dir = .ok (l, .directory)) (now : Time.Instant) :
  onTree (ofDirectory dir now) t
    = (.ok (ofItems ((found t dir l).flatMap (·.2)) ((found t dir l).map (·.1)) now), t)
  := by
  have hdirectory : onTree (liftM (Storage.isDirectory dir : StateM Tree Bool)
      : ExceptT Fault (StateM Tree) Bool) t = (.ok true, t) := by
    have hthere : t.isDirectory dir = true := by rw [Tree.isDirectory, h]
    rw [← hthere]
    rfl
  have hlist : onTree (Storage.located dir (Storage.list dir) : ExceptT Fault (StateM Tree) _) t
      = (.ok (t.names l), t) := by
    have hnames : onTree (Storage.list dir : ExceptT FileFault (StateM Tree) _) t
        = (t.list dir, t) := rfl
    rw [Storage.located, onTree_adapt, hnames, Tree.list_of_resolve h]
    rfl
  rw [ofDirectory, onTree_bind, hdirectory]
  dsimp only
  rw [if_neg (by simp), onTree_bind, hlist]
  dsimp only
  rw [onTree_bind, onTree_readAll]
  rfl

/-! ### Review files -/

/-- The name of a review file. -/
def IsReviewFile (name : String) : Prop :=
  ".json".toList <:+ name.toList

theorem mem_reviewFiles_iff {names : List String} :
  name ∈ reviewFiles names ↔ name ∈ names ∧ IsReviewFile name
  := by
  rw [reviewFiles, (List.mergeSort_perm _ _).mem_iff, List.mem_filter, List.isSuffixOf_iff_suffix,
    IsReviewFile]

theorem count_reviewFiles (h : IsReviewFile name) (names : List String) :
  (reviewFiles names).count name = names.count name
  := by
  rw [reviewFiles, (List.mergeSort_perm _ _).count_eq]
  exact List.count_filter (List.isSuffixOf_iff_suffix.mpr h)

/-- A review file has a name that a file may have. -/
theorem IsReviewFile.isName (h : IsReviewFile name) (hseparated : '/' ∉ name.toList) :
  Tree.IsName name
  := by
  have hlength := h.length_le
  constructor
  case separated => exact hseparated
  all_goals
    rintro rfl
    revert hlength
    decide

theorem not_isReviewFile_temporary (name : String) :
  ¬ IsReviewFile (name ++ ".tmp")
  := by
  intro h
  rw [IsReviewFile, String.toList_append] at h
  have hshort : ".tmp".toList.length ≤ ".json".toList.length := by decide
  have hends := List.suffix_of_suffix_length_le (List.suffix_append _ _) h hshort
  revert hends
  decide

/-! ### Directories with one review file -/

theorem filterMap_eq_singleton {α β : Type} [DecidableEq α] {f : α → Option β} {as : List α} {a : α}
    {b : β} (hcount : as.count a = 1) (ha : f a = some b) (hother : ∀ x ∈ as, x ≠ a → f x = none) :
  as.filterMap f = [b]
  := by
  have honly : as.filterMap f = (as.filter (· == a)).filterMap f := by
    rw [List.filterMap_filter]
    apply List.filterMap_congr
    intro x hx
    by_cases hxa : x = a
    · simp [hxa]
    · simp [hxa, hother x hx hxa]
  rw [honly, List.filter_beq, hcount]
  simp [ha]

variable {q : Path} {items : List ReviewItem} {content : Bytes}

/-- Nothing else at the place of a directory is a review file. -/
def IsOnlyReviewFile (t : Tree) (l : Location) (name : String) : Prop :=
  ∀ other content, IsReviewFile other → t.node? (l ++ [other]) = some (.file content) → other = name

/-- What is found under a name in a directory and can be read is a file there. -/
theorem exists_file_of_descend (hdir : t.resolve dir = .ok (l, .directory))
    (hq : dir.searched? = some q) (hname : Tree.IsName name) (hnext : q.descend name = some p)
    (hread : (reviews? t p).isSome = true) :
  ∃ content, t.node? (l ++ [name]) = some (.file content)
  := by
  obtain ⟨content, hcontent⟩ : ∃ content, t.read p = .ok content := by
    cases hp : t.read p with
    | ok content => exact ⟨content, rfl⟩
    | error e => simp [reviews?, hp, Except.toOption] at hread
  obtain ⟨folder, name', hplace, hnode⟩ := Tree.read_eq_ok_iff.mp hcontent
  obtain ⟨k, hk, hentry⟩ := Tree.entry_of_descend hq hname hnext hplace
  obtain ⟨rfl, rfl⟩ : folder = k ∧ name' = name := by simpa using hentry
  obtain rfl : folder = l := by
    rw [Tree.foldlM_enter_of_resolve hdir] at hk
    exact (Except.ok.inj hk).symm
  exact ⟨content, hnode⟩

/-- Where a search finds a review file that no other is beside, it finds this one only. -/
theorem found_of_only (hdir : t.resolve dir = .ok (l, .directory)) (hempty : dir.text ≠ "")
    (ht : t.IsNamed) (hq : dir.searched? = some q)
    (hplace : t.place (dir.join ⟨name⟩) = .ok (.entry l name false))
    (hnode : t.node? (l ++ [name]) = some (.file content)) (hcount : (t.names l).count name = 1)
    (honly : IsOnlyReviewFile t l name) (hname : IsReviewFile name)
    (hitems : (Json.ofBytes? content).bind decodeFile = some items) :
  ∃ p, found t dir l = [(p, items)] ∧ t.place p = t.place (dir.join ⟨name⟩)
  := by
  have hseparated := ht l name _ hnode
  obtain ⟨p, hnext, hp⟩ := Tree.place_of_descend hempty hq (hname.isName hseparated) hplace
  refine ⟨p, ?_, hp.trans hplace.symm⟩
  rw [found, readable, pathsIn, hq]
  dsimp only
  rw [List.filterMap_filterMap]
  apply filterMap_eq_singleton (a := name)
  · rw [count_reviewFiles hname, hcount]
  · have hreviews : reviews? t p = some items := by
      rw [reviews?, Tree.read_of_place hp hnode]
      exact hitems
    rw [hnext, Option.bind_some, hreviews]
    rfl
  · intro other hother hne
    obtain ⟨hmem, hreview⟩ := mem_reviewFiles_iff.mp hother
    obtain ⟨n, hn⟩ := Tree.exists_node_of_mem hmem
    rw [Option.bind_eq_none_iff]
    intro p' hp'
    by_contra hread
    rw [Option.map_eq_none_iff, ← ne_eq, ← Option.isSome_iff_ne_none] at hread
    obtain ⟨c, hc⟩ := exists_file_of_descend hdir hq (hreview.isName (ht l other n hn)) hp' hread
    exact hne (honly other c hreview hc)

/-- A search that is lost finds no file. -/
theorem found_of_isLost (h : dir.IsLost) (t : Tree) (l : Location) :
  found t dir l = []
  := by
  rw [found, pathsIn, Path.searched?_eq_none_iff.mpr h]
  rfl

end CorpusAudit.ReviewSummary
