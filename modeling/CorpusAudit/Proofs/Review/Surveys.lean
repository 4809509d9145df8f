import CorpusAudit.Proofs.Decode
import CorpusAudit.Proofs.Review.Counting
import CorpusAudit.Proofs.Review.Directories
import CorpusAudit.Proofs.Storage.Properness

/-!
# Surveys of directories

The summary of a directory counts the reviews in those of its review files that can be read,
in the order of their names (`Survey`); a file of which a part cannot be read counts for
nothing.  Where a search does not come to the directory, it counts none at all
(`ofDirectory_summarizes`).
-/

namespace CorpusAudit.ReviewSummary

variable {t : Tree} {dir : Path} {l : Location} {p : Path}

/-! ### Files of reviews -/

/-- A file is a document whose items are reviews, all of them; one without items has none. -/
def HoldsReviews (content : Bytes) (items : List ReviewItem) : Prop :=
  ∃ v fs, Json.ofBytes? content = some v ∧ Decode.fields .json ["items"] true v = some fs
    ∧ match fs.find? "items" with
      | none => items = []
      | some w => ∃ vs, w = .list vs
        ∧ List.Forall₂ (fun v i => ReviewItem.decode v = some i) vs items

theorem holdsReviews_iff {content : Bytes} {items : List ReviewItem} :
  HoldsReviews content items ↔ (Json.ofBytes? content).bind decodeFile = some items
  := by
  rw [HoldsReviews, Option.bind_eq_some_iff]
  apply exists_congr
  intro v
  rw [decodeFile, Option.bind_eq_bind, Option.bind_eq_some_iff, ← exists_and_left]
  apply exists_congr
  intro fs
  rw [Decode.Fields.orElse]
  cases fs.find? "items" with
  | none => simp [eq_comm]
  | some w => simp [Decode.list_eq_some_iff]

/-- Reviews are read by a path to a file that holds them. -/
theorem reviews?_eq_some_iff {items : List ReviewItem} :
  reviews? t p = some items ↔ ∃ folder name content, t.place p = .ok (.entry folder name false)
    ∧ t.node? (folder ++ [name]) = some (.file content) ∧ HoldsReviews content items
  := by
  have hread (content : Bytes) : (t.read p).toOption = some content ↔ t.read p = .ok content := by
    cases t.read p <;> simp [Except.toOption]
  rw [reviews?, Option.bind_eq_some_iff]
  simp only [hread, Tree.read_eq_ok_iff, ← holdsReviews_iff]
  constructor
  · rintro ⟨content, ⟨folder, name, hplace, hnode⟩, hitems⟩
    exact ⟨folder, name, content, hplace, hnode, hitems⟩
  · rintro ⟨folder, name, content, hplace, hnode, hitems⟩
    exact ⟨content, ⟨folder, name, hplace, hnode⟩, hitems⟩

theorem flatMap_readable (t : Tree) (ps : List Path) :
  (readable t ps).flatMap (·.2) = ps.flatMap fun p => (reviews? t p).getD []
  := by
  induction ps with
  | nil => rfl
  | cons p ps ih =>
    rw [List.flatMap_cons, ← ih, readable, List.filterMap_cons]
    cases reviews? t p <;> rfl

theorem map_readable (t : Tree) (ps : List Path) :
  (readable t ps).map (·.1) = ps.filter fun p => (reviews? t p).isSome
  := by
  induction ps with
  | nil => rfl
  | cons p ps ih =>
    rw [List.filter_cons, ← ih, readable, List.filterMap_cons]
    cases reviews? t p <;> rfl

/-! ### Surveys -/

/-- What there is to summarize in a directory: its review files in the order of their names,
found by paths that start alike, and the reviews of those that can be read. -/
structure Survey (t : Tree) (dir : Path) (l : Location) where
  names : List String
  start : String
  reviews? : String → Option (List ReviewItem)
  ascending : names.Pairwise (· < ·)
  complete : ∀ name, name ∈ names
    ↔ IsReviewFile name ∧ (t.node? (l ++ [name])).isSome = true
  searched : ∀ name ∈ names,
    (dir.searched?.bind fun q => q.descend name) = some ⟨start ++ name⟩
  leads : ∀ name ∈ names, ∀ place, t.place ⟨start ++ name⟩ = .ok place
    ↔ (start ++ name).utf8ByteSize ≤ Tree.longestPath ∧ place = .entry l name false
  reads : ∀ name ∈ names, ∀ items, reviews? name = some items
    ↔ (start ++ name).utf8ByteSize ≤ Tree.longestPath
      ∧ ∃ content, t.node? (l ++ [name]) = some (.file content) ∧ HoldsReviews content items

/-- The summary of the reviews that can be read. -/
def Survey.summary (v : Survey t dir l) (now : Time.Instant) : ReviewSummary :=
  ofItems (v.names.flatMap fun name => (v.reviews? name).getD [])
    ((v.names.filter fun name => (v.reviews? name).isSome).map fun name => ⟨v.start ++ name⟩) now

theorem ascending_reviewFiles {names : List String} (h : names.Nodup) :
  (reviewFiles names).Pairwise (· < ·)
  := by
  have hsorted : (reviewFiles names).Pairwise (· ≤ ·) := List.pairwise_mergeSort' (· ≤ ·) _
  exact hsorted.imp₂ (fun _ _ => lt_of_le_of_ne) (h.filter _).mergeSort

/-- Where a search comes to a directory, all review files are found. -/
theorem exists_survey (ht : t.IsProper) (hdir : t.resolve dir = .ok (l, .directory))
    (hsearch : ¬ dir.IsLost) :
  ∃ v : Survey t dir l,
    found t dir l = readable t (v.names.map fun name => ⟨v.start ++ name⟩)
      ∧ v.reviews? = fun name => reviews? t ⟨v.start ++ name⟩
  := by
  obtain ⟨q, hq⟩ := Option.ne_none_iff_exists'.mp (mt Path.searched?_eq_none_iff.mp hsearch)
  obtain ⟨start, hstart⟩ := Tree.exists_start hdir hq
  have hfile (name : String) (hname : name ∈ reviewFiles (t.names l)) :
      Tree.IsName name ∧ Tree.IsStorable name := by
    obtain ⟨hmem, hreview⟩ := mem_reviewFiles_iff.mp hname
    have hstorable := ht.isStorable hmem
    exact ⟨hreview.isName hstorable.separated, hstorable⟩
  have hnext (name : String) (hname : name ∈ reviewFiles (t.names l)) :=
    hstart name (hfile name hname).1 (hfile name hname).2
  have hfound : found t dir l
      = readable t ((reviewFiles (t.names l)).map fun name => ⟨start ++ name⟩) := by
    have hpaths : (reviewFiles (t.names l)).filterMap q.descend
        = (reviewFiles (t.names l)).filterMap fun name => some ⟨start ++ name⟩ :=
      List.filterMap_congr fun name hname => (hnext name hname).1
    rw [found, pathsIn, hq]
    dsimp only
    rw [hpaths, ← List.filterMap_eq_map]
    rfl
  refine ⟨{
    names := reviewFiles (t.names l)
    start
    reviews? := fun name => reviews? t ⟨start ++ name⟩
    ascending := ascending_reviewFiles (ht.nodup_names l)
    complete := fun name => by rw [mem_reviewFiles_iff, Tree.isSome_node?_iff, and_comm]
    searched := fun name hname => by rw [hq, Option.bind_some, (hnext name hname).1]
    leads := fun name hname => (hnext name hname).2
    reads := ?reads }, hfound, rfl⟩
  intro name hname items
  simp only [reviews?_eq_some_iff, (hnext name hname).2]
  constructor
  · rintro ⟨folder, name', content, ⟨hshort, hentry⟩, hnode, hitems⟩
    obtain ⟨rfl, rfl⟩ : folder = l ∧ name' = name := by simpa using hentry
    exact ⟨hshort, content, hnode, hitems⟩
  · rintro ⟨hshort, content, hnode, hitems⟩
    exact ⟨l, name, content, ⟨hshort, rfl⟩, hnode, hitems⟩

/-- A summary says how many reviews have each status, and which checks fail in most of them,
whatever the order of the reviews.  That of a directory is the summary of the reviews in its
review files that can be read, unless a search for the directory is lost: then it is one of no
reviews. -/
theorem ofDirectory_summarizes (now : Time.Instant) :
  (∀ items files, (ofItems items files now).Summarizes items
      ∧ ∀ items', items.Perm items' → ofItems items files now = ofItems items' files now)
    ∧ ∀ t dir l, t.IsProper → t.resolve dir = .ok (l, .directory) →
      (¬ dir.IsLost → ∃ v : Survey t dir l,
        onTree (ofDirectory dir now) t = (.ok (v.summary now), t))
      ∧ (dir.IsLost → onTree (ofDirectory dir now) t = (.ok (ofItems [] [] now), t))
  := by
  refine ⟨fun items files => ⟨summarizes_ofItems items files now, ?_⟩, fun t dir l ht hdir => ?_⟩
  · intro items' hperm
    exact ofItems_perm hperm files now
  · rw [onTree_ofDirectory hdir]
    constructor
    · intro hsearch
      obtain ⟨v, hfound, hreviews⟩ := exists_survey ht hdir hsearch
      refine ⟨v, ?_⟩
      rw [hfound, flatMap_readable, map_readable, List.flatMap_map, List.filter_map,
        Survey.summary, hreviews]
      rfl
    · intro hlost
      rw [found_of_isLost hlost]
      rfl

/-- A file with a review, in which a check failed. -/
def oneReview : Bytes :=
  Text.encode ("\x7b\"items\": [\x7b\"record_id\": \"a\", \"category\": \"c\", "
    ++ "\"checklist\": \x7b\"no_unsafe\": false\x7d\x7d]\x7d")

/-- The review in this file. -/
def unsafeReview : ReviewItem :=
  ⟨"a", "c", none, .pending, .ofList [("no_unsafe", some false)], "", none, none⟩

/-- A file with a review and something that is none. -/
def halfReview : Bytes :=
  Text.encode "\x7b\"items\": [\x7b\"record_id\": \"a\", \"category\": \"c\"\x7d, 7]\x7d"

theorem holdsReviews_oneReview :
  HoldsReviews oneReview [unsafeReview]
  := by
  rw [holdsReviews_iff]
  decide +kernel

theorem not_holdsReviews_halfReview (items : List ReviewItem) :
  ¬ HoldsReviews halfReview items
  := by
  have hnone : (Json.ofBytes? halfReview).bind decodeFile = none := by decide +kernel
  rw [holdsReviews_iff, hnone]
  simp

/-- A directory with these files and a directory, of which the name has signs that patterns
have. -/
def reviewTree : Tree :=
  ⟨[(["r[1]*"], .directory), (["r[1]*", "a.json"], .file halfReview),
    (["r[1]*", "b.json"], .file oneReview), (["r[1]*", "c.json"], .directory)]⟩

section

variable (v : Survey reviewTree ⟨"r[1]*"⟩ ["r[1]*"])

theorem names_survey_reviewTree :
  v.names = ["a.json", "b.json", "c.json"]
  := by
  have hlisted : reviewTree.names ["r[1]*"] = ["a.json", "b.json", "c.json"] := by decide
  have hperm : v.names.Perm ["a.json", "b.json", "c.json"] := by
    apply (List.perm_ext_iff_of_nodup v.ascending.nodup (by decide)).mpr
    intro name
    rw [v.complete, Tree.isSome_node?_iff, hlisted, and_iff_right_of_imp]
    rw [IsReviewFile]
    revert name
    decide
  exact hperm.eq_of_pairwise' (v.ascending.imp le_of_lt) (by decide)

/-- Only the second of the three files can be read. -/
theorem reviews_survey_reviewTree :
  v.reviews? "a.json" = none ∧ v.reviews? "b.json" = some [unsafeReview]
    ∧ v.reviews? "c.json" = none ∧ v.start ++ "b.json" = "r[1]*/b.json"
  := by
  have hnames := names_survey_reviewTree v
  have hpath : v.start ++ "b.json" = "r[1]*/b.json" :=
    congrArg Path.text (Option.some.inj (v.searched "b.json" (by simp [hnames]))).symm
  refine ⟨?half, ?good, ?directory, hpath⟩
  case half =>
    rw [Option.eq_none_iff_forall_ne_some]
    intro items hitems
    obtain ⟨-, content, hnode, hholds⟩ := (v.reads "a.json" (by simp [hnames]) items).mp hitems
    have hfile : some (Node.file halfReview) = some (.file content) := hnode
    obtain rfl : halfReview = content := by simpa using hfile
    exact not_holdsReviews_halfReview items hholds
  case good =>
    apply (v.reads "b.json" (by simp [hnames]) _).mpr
    rw [hpath]
    exact ⟨by decide, oneReview, rfl, holdsReviews_oneReview⟩
  case directory =>
    rw [Option.eq_none_iff_forall_ne_some]
    intro items hitems
    obtain ⟨-, content, hnode, -⟩ := (v.reads "c.json" (by simp [hnames]) items).mp hitems
    cases hnode

theorem summary_survey_reviewTree (now : Time.Instant) :
  v.summary now = ofItems [unsafeReview] [⟨"r[1]*/b.json"⟩] now
  := by
  obtain ⟨hhalf, hgood, hdirectory, hpath⟩ := reviews_survey_reviewTree v
  simp [Survey.summary, names_survey_reviewTree v, hhalf, hgood, hdirectory, hpath]

end

/-- The directory counts the one review that can be read. -/
theorem ofDirectory_summarizes_reviewTree :
  reviewTree.IsProper ∧ reviewTree.resolve ⟨"r[1]*"⟩ = .ok (["r[1]*"], .directory)
    ∧ ∃ s, onTree (ofDirectory ⟨"r[1]*"⟩ ⟨⟨2024, 1, 2⟩, 0, 0, 0, 0⟩) reviewTree
        = (.ok s, reviewTree)
      ∧ s.files = [⟨"r[1]*/b.json"⟩] ∧ s.total = 1 ∧ s.failures = [("no_unsafe", 1)]
  := by
  have hproper : reviewTree.IsProper := ⟨by decide, by decide⟩
  have hdir : reviewTree.resolve ⟨"r[1]*"⟩ = .ok (["r[1]*"], .directory) := rfl
  obtain ⟨-, hsummary⟩ := ofDirectory_summarizes ⟨⟨2024, 1, 2⟩, 0, 0, 0, 0⟩
  obtain ⟨v, hv⟩ := (hsummary reviewTree ⟨"r[1]*"⟩ ["r[1]*"] hproper hdir).1 (by decide)
  refine ⟨hproper, hdir, _, hv, ?_⟩
  rw [summary_survey_reviewTree]
  exact ⟨rfl, rfl, by decide +kernel⟩

/-- The file of a review in the directory where paths start. -/
def looseTree : Tree :=
  ⟨[(["s.json"], .file oneReview)]⟩

/-- A review file that can be read is in the directory `./`, and yet the summary of this
directory has no file and counts no review. -/
theorem readable_is_not_summarized :
  looseTree.IsProper ∧ looseTree.resolve ⟨"./"⟩ = .ok ([], .directory)
    ∧ IsReviewFile "s.json" ∧ looseTree.node? ["s.json"] = some (.file oneReview)
    ∧ HoldsReviews oneReview [unsafeReview]
    ∧ ∃ s, onTree (ofDirectory ⟨"./"⟩ ⟨⟨2024, 1, 2⟩, 0, 0, 0, 0⟩) looseTree = (.ok s, looseTree)
      ∧ s.files = [] ∧ s.total = 0 ∧ s.failures = []
  := by
  have hdir : looseTree.resolve ⟨"./"⟩ = .ok ([], .directory) := rfl
  have hreview : IsReviewFile "s.json" := by
    rw [IsReviewFile]
    decide
  refine ⟨⟨by decide, by decide⟩, hdir, hreview, rfl, holdsReviews_oneReview, _,
    onTree_ofDirectory hdir _, ?_⟩
  rw [found_of_isLost (by decide)]
  exact ⟨rfl, rfl, by decide +kernel⟩

end CorpusAudit.ReviewSummary
