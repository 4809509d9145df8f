import CorpusAudit.Proofs.Review.Directories
import CorpusAudit.Proofs.Sample.Selecting
import CorpusAudit.Proofs.Storage.Atomicity

/-!
# Samples that are reviewed

The reviews of a sample are those of the records that were drawn, in their order, and they
all wait.  Where a sample is written to a directory in which no other file is a review file,
the summary of the directory counts exactly these reviews (`Sample.draw_isSummarized`),
unless a search for files does not come to the directory: then it counts none.
-/

namespace CorpusAudit

/-! ### Reviews that wait -/

namespace ReviewItem

/-- A review that waits for a record of a corpus: it has the category and the tier of the
record, and none of the eight checks was made. -/
structure Awaits (c : LabeledCorpus) (i : ReviewItem) : Prop where
  record : ∃ r ∈ c.records, r.id = i.recordId ∧ r.category = i.category
    ∧ i.tier = some (c.rules.label r).tier
  status : i.status = .pending
  checks : ∀ check ∈ checklist, i.checks.find? check.id = some none
  noOther : i.checks.entries.length = 8

/-- The results of the checks where none was made. -/
def noResults : Table (Option Bool) :=
  .ofList (checklist.map fun c => (c.id, none))

theorem noResults_entries :
  noResults.entries.length = 8 ∧ ∀ e ∈ noResults.entries, e.2 = none
  := by
  decide +kernel

theorem awaits_pending {c : LabeledCorpus} {r : Record} (hr : r ∈ c.records) :
  Awaits c (pending r.id r.category (some (c.rules.label r).tier))
  where
    record := ⟨r, hr, rfl, rfl, rfl⟩
    status := rfl
    checks := (by decide +kernel : ∀ check ∈ checklist, noResults.find? check.id = some none)
    noOther := noResults_entries.1

theorem failedChecks_pending (id category : String) (tier : Option Tier) :
  ReviewSummary.failedChecks (pending id category tier) = []
  := by
  rw [ReviewSummary.failedChecks, List.map_eq_nil_iff, List.filter_eq_nil_iff]
  intro e he
  simp [noResults_entries.2 e he]

end ReviewItem

namespace ReviewSummary

/-- The summary of a number of reviews that all wait. -/
structure CountsPending (count : Nat) (s : ReviewSummary) : Prop where
  total : s.total = count
  statuses : ∀ status, s.statuses status = if status = .pending then count else 0
  failures : s.failures = []

theorem countsPending_ofItems {items : List ReviewItem}
    (h : ∀ i ∈ items, i.status = .pending ∧ failedChecks i = []) (files : List Path)
    (now : Time.Instant) :
  (ofItems items files now).CountsPending items.length
  where
    total := rfl
    statuses := by
      intro status
      have hcount : (ofItems items files now).statuses status
          = items.countP fun _ => ReviewStatus.pending = status := by
        apply List.countP_congr
        intro i hi
        rw [(h i hi).1]
      rw [hcount]
      by_cases hstatus : status = .pending
      · simp [hstatus]
      · simp [hstatus, Ne.symm hstatus]
    failures := by
      have hnone : items.flatMap failedChecks = [] := by
        rw [List.flatMap_eq_nil_iff]
        intro i hi
        exact (h i hi).2
      have hranked : (ofItems items files now).failures
          = (rankFailures (countFailures items)).take mostFailures := rfl
      rw [hranked, countFailures, hnone]
      decide +kernel

end ReviewSummary

namespace Sample

variable {s : Sampler} {c : LabeledCorpus} {now : Time.Instant}

/-- The review of a record that was drawn. -/
theorem exists_item? (hc : (c.records.map Record.id).Nodup) {id : String}
    (hid : id ∈ (s.select c.records).ids) :
  ∃ r ∈ c.records, r.id = id
    ∧ item? c id = some (.pending r.id r.category (some (c.rules.label r).tier))
  := by
  obtain ⟨r, hr, rfl⟩ := (Selection.isSampleOf_ofRecords s.allocation s.millionths s.stream hc).ids
    id hid
  have hfound : (c.records.reverse.find? (·.id = r.id)).isSome = true := by
    rw [List.find?_isSome]
    exact ⟨r, List.mem_reverse.mpr hr, by simp⟩
  obtain ⟨r', hr'⟩ := Option.isSome_iff_exists.mp hfound
  have hsame : r'.id = r.id := by simpa using List.find?_some hr'
  refine ⟨r', List.mem_reverse.mp (List.mem_of_find?_eq_some hr'), hsame, ?_⟩
  rw [item?, hr', hsame]
  rfl

theorem mem_items (hc : (c.records.map Record.id).Nodup) {i : ReviewItem}
    (hi : i ∈ (draw s c now).items) :
  ∃ r ∈ c.records, i = .pending r.id r.category (some (c.rules.label r).tier)
  := by
  obtain ⟨id, hid, hitem⟩ := List.mem_filterMap.mp hi
  obtain ⟨r, hr, -, hpending⟩ := exists_item? hc hid
  exact ⟨r, hr, Option.some.inj (hitem.symm.trans hpending)⟩

/-- The reviews are those of the records that were drawn, in their order. -/
theorem map_recordId_items (hc : (c.records.map Record.id).Nodup) :
  (draw s c now).items.map ReviewItem.recordId = (draw s c now).selection.ids
  := by
  have hids (id : String) (hid : id ∈ (s.select c.records).ids) :
      (item? c id).map ReviewItem.recordId = some id := by
    obtain ⟨r, -, rfl, hpending⟩ := exists_item? hc hid
    rw [hpending]
    rfl
  have hitems : (draw s c now).items = (s.select c.records).ids.filterMap (item? c) := rfl
  rw [hitems, List.map_filterMap, List.filterMap_congr hids, List.filterMap_some]
  rfl

theorem length_items (hc : (c.records.map Record.id).Nodup) :
  (draw s c now).items.length = (draw s c now).selection.ids.length
  := by
  rw [← map_recordId_items hc, List.length_map]

/-- The reviews are read from the file to which the sample is written. -/
theorem decodeFile_draw (hc : (c.records.map Record.id).Nodup) :
  (Json.ofBytes? (Text.encode (Json.render (draw s c now).toValue))).bind
    ReviewSummary.decodeFile = some (draw s c now).items
  := by
  apply decodeFile_render
  intro i hi t ht
  obtain ⟨r, -, rfl⟩ := mem_items hc hi
  simp [ReviewItem.pending] at ht

/-! ### Samples in directories -/

/-- The document of the sample. -/
def content (s : Sample) : Bytes :=
  Text.encode (Json.render s.toValue)

/-- The sample was written to a directory in which no other file was a review file. -/
structure IsWrittenTo (sample : Sample) (dir : Path) (l : Location) (name : String) (t u : Tree) :
    Prop where
  named : t.IsNamed
  separated : '/' ∉ name.toList
  review : ReviewSummary.IsReviewFile name
  written : onTree (Storage.writeJson (dir.join ⟨name⟩) sample.toValue) t = (.ok (), u)
  directory : u.resolve dir = .ok (l, .directory)
  only : ReviewSummary.IsOnlyReviewFile t l name

namespace IsWrittenTo

variable {sample : Sample} {dir : Path} {l : Location} {name : String} {t u : Tree}

theorem dir_ne_empty (h : sample.IsWrittenTo dir l name t u) :
  dir.text ≠ ""
  := by
  obtain ⟨place, hplace, -⟩ := bind_eq_ok_iff.mp h.directory
  exact (Tree.place_eq_ok_iff.mp hplace).1.2.1

theorem isName (h : sample.IsWrittenTo dir l name t u) :
  Tree.IsName name
  := h.review.isName h.separated

/-- The sample is in the directory, under its name, and listed once. -/
theorem place (h : sample.IsWrittenTo dir l name t u) :
  u.place (dir.join ⟨name⟩) = .ok (.entry l name false)
    ∧ u.node? (l ++ [name]) = some (.file sample.content) ∧ (u.names l).count name = 1
  := by
  obtain ⟨l', name', hplace, hnode, hcount⟩ := Storage.place_writeAtomic h.written
  obtain ⟨k, hk, hentry⟩ := Tree.entry_of_join h.dir_ne_empty h.isName hplace
  obtain ⟨rfl, rfl⟩ : l' = k ∧ name' = name := by simpa using hentry
  obtain rfl : l' = l := by
    rw [Tree.foldlM_enter_of_resolve h.directory] at hk
    exact (Except.ok.inj hk).symm
  exact ⟨hplace, hnode, hcount⟩

theorem resolve (h : sample.IsWrittenTo dir l name t u) {p : Path}
    (hp : u.place p = u.place (dir.join ⟨name⟩)) :
  u.resolve p = .ok (l ++ [name], .file sample.content)
  := by
  obtain ⟨hplace, hnode, -⟩ := h.place
  simp [Tree.resolve, hp, hplace, hnode, bind, Except.bind]

/-- No other file in the directory is a review file. -/
theorem isOnlyReviewFile (h : sample.IsWrittenTo dir l name t u) :
  ReviewSummary.IsOnlyReviewFile u l name
  := by
  obtain ⟨hplace, -, -⟩ := h.place
  intro other content hother hfile
  by_contra hne
  have hbefore := (Storage.replacesFile_of_writeAtomic h.written (l ++ [other]) ?path ?temporary
    content).mp hfile
  case path =>
    rintro ⟨folder, n, closed, hsame, hl⟩
    obtain ⟨rfl, rfl, -⟩ : l = folder ∧ name = n ∧ _ := by
      rw [hplace] at hsame
      simpa using hsame
    exact hne (by simpa using hl)
  case temporary =>
    rintro ⟨folder, n, closed, htemporary, hl⟩
    obtain ⟨rfl, rfl⟩ := Tree.place_temporary hplace htemporary
    obtain rfl : other = name ++ ".tmp" := by simpa using hl
    exact ReviewSummary.not_isReviewFile_temporary name hother
  exact hne (h.only other content hother hbefore)

/-- The reviews of the sample are what is found in the directory. -/
theorem exists_found (h : sample.IsWrittenTo dir l name t u) (hdir : ¬ dir.IsLost)
    {items : List ReviewItem}
    (hitems : (Json.ofBytes? sample.content).bind ReviewSummary.decodeFile = some items) :
  ∃ p, ReviewSummary.found u dir l = [(p, items)]
    ∧ u.resolve p = .ok (l ++ [name], .file sample.content)
  := by
  obtain ⟨q, hq⟩ := Option.ne_none_iff_exists'.mp (mt Path.searched?_eq_none_iff.mp hdir)
  obtain ⟨hplace, hnode, hcount⟩ := h.place
  obtain ⟨p, hfound, hp⟩ := ReviewSummary.found_of_only h.directory h.dir_ne_empty
    (Storage.isNamed_writeAtomic h.named h.written) hq hplace hnode hcount h.isOnlyReviewFile
    h.review hitems
  exact ⟨p, hfound, h.resolve hp⟩

end IsWrittenTo

/-- The reviews of a sample are those of the records that were drawn, and are all found where
it was written, unless a search for its directory is lost: then none is found. -/
theorem draw_isSummarized (s : Sampler) (c : LabeledCorpus) (now : Time.Instant)
    (hc : (c.records.map Record.id).Nodup) :
  let sample := draw s c now
  sample.items.map ReviewItem.recordId = sample.selection.ids
    ∧ (∀ i ∈ sample.items, i.Awaits c)
    ∧ ∀ dir l name t u, sample.IsWrittenTo dir l name t u → ∀ later, ∃ summary,
      onTree (ReviewSummary.ofDirectory dir later) u = (.ok summary, u)
        ∧ (¬ dir.IsLost → summary.CountsPending sample.selection.ids.length
          ∧ ∃ p, summary.files = [p] ∧ u.resolve p = .ok (l ++ [name], .file sample.content)
            ∧ u.resolve (dir.join ⟨name⟩) = .ok (l ++ [name], .file sample.content))
        ∧ (dir.IsLost → summary.CountsPending 0 ∧ summary.files = [])
  := by
  intro sample
  refine ⟨map_recordId_items hc, ?awaits, ?summarized⟩
  case awaits =>
    intro i hi
    obtain ⟨r, hr, rfl⟩ := mem_items hc hi
    exact ReviewItem.awaits_pending hr
  case summarized =>
    intro dir l name t u h later
    refine ⟨_, ReviewSummary.onTree_ofDirectory h.directory later, ?found, ?lost⟩
    case found =>
      intro hdir
      obtain ⟨p, hfound, hp⟩ := h.exists_found hdir (decodeFile_draw hc)
      rw [hfound]
      refine ⟨?_, p, rfl, hp, h.resolve rfl⟩
      rw [← length_items hc, List.flatMap_singleton]
      apply ReviewSummary.countsPending_ofItems
      intro i hi
      obtain ⟨r, -, rfl⟩ := mem_items hc hi
      exact ⟨rfl, ReviewItem.failedChecks_pending _ _ _⟩
    case lost =>
      intro hlost
      rw [ReviewSummary.found_of_isLost hlost]
      have hnone : ∀ i ∈ ([] : List ReviewItem), i.status = .pending
          ∧ ReviewSummary.failedChecks i = [] := by simp
      exact ⟨ReviewSummary.countsPending_ofItems hnone [] later, rfl⟩

/-- Records of two categories, with quotation marks, a line feed and other signs in their names. -/
def oddRecords : List Record :=
  [⟨"a\"\n", "é\x01", true, some true, none, [], .empty⟩,
    ⟨"雪\\", "", true, none, none, [], .empty⟩]

/-- A sample of them. -/
def oddSample : Sample :=
  draw ⟨0.5, 500000, 42, .default⟩ ⟨.ofRecords oddRecords, .default⟩ ⟨⟨2024, 1, 1⟩, 0, 0, 0, 0⟩

theorem length_oddSample :
  oddSample.selection.ids.length = 2
  := Selection.length_ids .default 500000 _

/-- The sample in a directory of its own. -/
def oddTree : Tree :=
  ⟨[(["rv"], .directory), (["rv", "s.json"], .file oddSample.content)]⟩

theorem oddSample_isWrittenTo :
  oddSample.IsWrittenTo ⟨"rv"⟩ ["rv"] "s.json" .empty oddTree
  where
    named := by
      intro l name n h
      cases l <;> simp [Tree.empty, Tree.node?] at h
    separated := by decide
    review := by
      rw [ReviewSummary.IsReviewFile]
      decide
    written := rfl
    directory := rfl
    only := by
      intro other content hother h
      simp [Tree.empty, Tree.node?] at h

/-- The two reviews are found in the directory. -/
theorem draw_isSummarized_oddRecords :
  (oddRecords.map Record.id).Nodup
    ∧ oddSample.items.map ReviewItem.recordId = oddSample.selection.ids
    ∧ ∃ summary, onTree (ReviewSummary.ofDirectory ⟨"rv"⟩ ⟨⟨2024, 1, 2⟩, 0, 0, 0, 0⟩) oddTree
      = (.ok summary, oddTree)
        ∧ summary.CountsPending 2 ∧ summary.files.length = 1
  := by
  have hnodup : (oddRecords.map Record.id).Nodup := by decide
  obtain ⟨hids, -, hsummary⟩ := draw_isSummarized ⟨0.5, 500000, 42, .default⟩
    ⟨.ofRecords oddRecords, .default⟩ ⟨⟨2024, 1, 1⟩, 0, 0, 0, 0⟩ hnodup
  obtain ⟨summary, hsummary, hfound, -⟩ := hsummary ⟨"rv"⟩ ["rv"] "s.json" .empty oddTree
    oddSample_isWrittenTo ⟨⟨2024, 1, 2⟩, 0, 0, 0, 0⟩
  obtain ⟨hcounts, p, hfiles, -⟩ := hfound (by decide)
  refine ⟨hnodup, hids, summary, hsummary, ?_, ?_⟩
  · rw [← length_oddSample]
    exact hcounts
  · rw [hfiles]
    rfl

/-- The sample in the directory where paths start. -/
def lostTree : Tree :=
  ⟨[(["s.json"], .file oddSample.content)]⟩

/-- The sample is written as the only file of the directory `./`, and yet the summary of this
directory has no file and counts none of its two reviews. -/
theorem written_is_not_found :
  onTree (Storage.writeJson ((Path.mk "./").join ⟨"s.json"⟩) oddSample.toValue) .empty
      = (.ok (), lostTree)
    ∧ lostTree.resolve ⟨"./"⟩ = .ok ([], .directory)
    ∧ oddSample.selection.ids.length = 2
    ∧ ∃ summary, onTree (ReviewSummary.ofDirectory ⟨"./"⟩ ⟨⟨2024, 1, 2⟩, 0, 0, 0, 0⟩) lostTree
      = (.ok summary, lostTree) ∧ summary.files = [] ∧ summary.total = 0
        ∧ summary.statuses .pending = 0
  := by
  have hdirectory : lostTree.resolve ⟨"./"⟩ = .ok ([], .directory) := rfl
  refine ⟨rfl, hdirectory, length_oddSample, _, ReviewSummary.onTree_ofDirectory hdirectory _, ?_⟩
  rw [ReviewSummary.found_of_isLost (by decide)]
  exact ⟨rfl, rfl, rfl⟩

end Sample

end CorpusAudit
