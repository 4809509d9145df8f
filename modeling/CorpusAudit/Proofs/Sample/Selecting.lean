import CorpusAudit.Proofs.Random.Drawing
import CorpusAudit.Proofs.Sample.Allocating
import CorpusAudit.Proofs.Table
import CorpusAudit.Sample.Basic

/-!
# Samples

Whatever the streams of random words are, a sample has of every category as many records
as the policy says, each of them once.  It does not depend on the order of the records,
and what it has of a category does not depend on the other categories
(`Selection.ofRecords_by_category`).
-/

namespace CorpusAudit.Selection

/-! ### Sorted texts -/

theorem sort_perm (ids : List String) :
  (sort ids).Perm ids
  := List.mergeSort_perm _ _

theorem pairwise_sort (ids : List String) :
  (sort ids).Pairwise (· ≤ ·)
  := List.pairwise_mergeSort' (· ≤ ·) ids

/-- Sorted texts do not depend on the order in which they were given. -/
theorem sort_eq_of_perm {ids ids' : List String} (h : ids.Perm ids') :
  sort ids = sort ids'
  := by
  have hperm : (sort ids).Perm (sort ids') := ((sort_perm ids).trans h).trans (sort_perm ids').symm
  exact hperm.eq_of_pairwise' (pairwise_sort ids) (pairwise_sort ids')

/-- Different texts ascend strictly when they are sorted. -/
theorem ascending_sort {ids : List String} (h : ids.Nodup) :
  (sort ids).Pairwise (· < ·)
  := by
  have hnodup : (sort ids).Nodup := (sort_perm ids).nodup_iff.mpr h
  exact (pairwise_sort ids).imp₂ (fun _ _ => lt_of_le_of_ne) hnodup

/-! ### What is drawn of one category -/

/-- The identifiers of the records of a category. -/
def idsOf (records : List Record) (category : String) : List String :=
  (records.filter (·.category = category)).map Record.id

theorem mem_idsOf {records : List Record} {category id : String} :
  id ∈ idsOf records category ↔ ∃ r ∈ records, r.category = category ∧ r.id = id
  := by
  simp [idsOf, and_assoc]

theorem length_idsOf (records : List Record) (category : String) :
  (idsOf records category).length = records.countP (·.category = category)
  := by
  rw [idsOf, List.length_map, List.countP_eq_length_filter]

variable (a : Allocation) (fraction : Nat)

theorem length_ofCategory (s : Random.Stream) (ids : List String) :
  (ofCategory a fraction s ids).length = a.allocate ids.length fraction
  := by
  apply Random.length_choose
  rw [(sort_perm ids).length_eq]
  exact a.allocate_le ids.length fraction

theorem ofCategory_subperm (s : Random.Stream) (ids : List String) :
  (ofCategory a fraction s ids).Subperm ids
  := (Random.choose_subperm s _ _).trans (sort_perm ids).subperm

theorem ofCategory_eq_of_perm (s : Random.Stream) {ids ids' : List String} (h : ids.Perm ids') :
  ofCategory a fraction s ids = ofCategory a fraction s ids'
  := by
  rw [ofCategory, ofCategory, sort_eq_of_perm h, h.length_eq]

/-! ### Categories -/

/-- The identifiers of the records of every category. -/
def strata (records : List Record) : Table (List String) :=
  (Table.groupBy Record.category records).map fun rs => rs.map Record.id

theorem find?_strata (records : List Record) (category : String) :
  (strata records).find? category
    = if idsOf records category = [] then none else some (idsOf records category)
  := by
  rw [strata, Table.find?_map, Table.find?_groupBy, apply_ite (Option.map _)]
  simp [idsOf]

theorem mem_strata {records : List Record} {e : String × List String} :
  e ∈ (strata records).entries ↔ e.2 ≠ [] ∧ e.2 = idsOf records e.1
  := by
  rw [Table.mem_entries_iff, find?_strata]
  split
  · next hnil => simp [hnil]
  · next hnil =>
    rw [Option.some.injEq]
    constructor
    · intro h
      exact ⟨h ▸ hnil, h.symm⟩
    · rintro ⟨-, h⟩
      exact h.symm

variable (streams : String → Random.Stream) (records : List Record)

/-- The identifiers that are drawn, category by category. -/
def drawn : List String :=
  (strata records).entries.flatMap fun e => ofCategory a fraction (streams e.1) e.2

theorem ids_ofRecords :
  (ofRecords a fraction streams records).ids = sort (drawn a fraction streams records)
  := rfl

theorem counts_ofRecords :
  (ofRecords a fraction streams records).counts
    = (strata records).map fun ids => a.allocate ids.length fraction
  := rfl

theorem mem_drawn {id : String} :
  id ∈ drawn a fraction streams records
    ↔ ∃ category, id ∈ ofCategory a fraction (streams category) (idsOf records category)
  := by
  rw [drawn, List.mem_flatMap]
  constructor
  · rintro ⟨e, he, hid⟩
    obtain ⟨-, hids⟩ := mem_strata.mp he
    rw [hids] at hid
    exact ⟨e.1, hid⟩
  · rintro ⟨category, hid⟩
    have hsome : idsOf records category ≠ [] :=
      List.ne_nil_of_mem ((ofCategory_subperm a fraction _ _).subset hid)
    exact ⟨(category, _), mem_strata.mpr ⟨hsome, rfl⟩, hid⟩

theorem mem_ids_iff {id : String} :
  id ∈ (ofRecords a fraction streams records).ids
    ↔ ∃ category, id ∈ ofCategory a fraction (streams category) (idsOf records category)
  := by
  rw [ids_ofRecords, (sort_perm _).mem_iff, mem_drawn]

/-! ### Records with different identifiers -/

variable {records : List Record}

/-- The category of a record is known from its identifier. -/
theorem category_unique (h : (records.map Record.id).Nodup) {id c c' : String}
    (hc : id ∈ idsOf records c) (hc' : id ∈ idsOf records c') :
  c = c'
  := by
  obtain ⟨r, hr, rfl, rfl⟩ := mem_idsOf.mp hc
  obtain ⟨r', hr', rfl, hid⟩ := mem_idsOf.mp hc'
  rw [List.inj_on_of_nodup_map h hr hr' hid.symm]

theorem nodup_idsOf (h : (records.map Record.id).Nodup) (category : String) :
  (idsOf records category).Nodup
  := h.sublist (List.filter_sublist.map _)

theorem nodup_ofCategory (h : (records.map Record.id).Nodup) (s : Random.Stream)
    (category : String) :
  (ofCategory a fraction s (idsOf records category)).Nodup
  := by
  obtain ⟨ids, hperm, hsublist⟩ := ofCategory_subperm a fraction s (idsOf records category)
  exact hperm.nodup_iff.mp ((nodup_idsOf h category).sublist hsublist)

/-- No identifier is drawn twice. -/
theorem nodup_drawn (h : (records.map Record.id).Nodup) :
  (drawn a fraction streams records).Nodup
  := by
  rw [drawn, List.nodup_flatMap]
  constructor
  · intro e he
    rw [(mem_strata.mp he).2]
    exact nodup_ofCategory a fraction h _ _
  · -- entries with different categories have no identifier in common
    apply List.Pairwise.imp_of_mem _ (strata records).ascending
    intro e e' he he' hlt id hid hid'
    have hmem := (ofCategory_subperm a fraction _ _).subset hid
    have hmem' := (ofCategory_subperm a fraction _ _).subset hid'
    rw [(mem_strata.mp he).2] at hmem
    rw [(mem_strata.mp he').2] at hmem'
    rw [category_unique h hmem hmem'] at hlt
    exact String.lt_irrefl _ hlt

theorem ascending_ids (h : (records.map Record.id).Nodup) :
  (ofRecords a fraction streams records).ids.Pairwise (· < ·)
  := ascending_sort (nodup_drawn a fraction streams h)

/-- What is drawn of a category, sorted. -/
theorem filter_ids (h : (records.map Record.id).Nodup) (category : String) :
  (ofRecords a fraction streams records).ids.filter (· ∈ idsOf records category)
    = sort (ofCategory a fraction (streams category) (idsOf records category))
  := by
  apply List.Pairwise.eq_of_mem_iff
    ((ascending_ids a fraction streams h).sublist List.filter_sublist)
    (ascending_sort (nodup_ofCategory a fraction h _ _))
  intro id
  rw [List.mem_filter, decide_eq_true_iff, mem_ids_iff, (sort_perm _).mem_iff]
  constructor
  · rintro ⟨⟨c, hid⟩, hmem⟩
    have hc := (ofCategory_subperm a fraction _ _).subset hid
    rwa [category_unique h hc hmem] at hid
  · intro hid
    exact ⟨⟨category, hid⟩, (ofCategory_subperm a fraction _ _).subset hid⟩

/-- What is drawn of a category is what is drawn of its records alone. -/
theorem filter_ids_eq_ofRecords_filter (h : (records.map Record.id).Nodup) (category : String) :
  (ofRecords a fraction streams records).ids.filter (· ∈ idsOf records category)
    = (ofRecords a fraction streams (records.filter (·.category = category))).ids
  := by
  have halone : ((records.filter (·.category = category)).map Record.id).Nodup :=
    nodup_idsOf h category
  have hsame : idsOf (records.filter (·.category = category)) category
      = idsOf records category := by
    rw [idsOf, List.filter_filter]
    simp [idsOf]
  rw [filter_ids a fraction streams h, ← hsame, ← filter_ids a fraction streams halone,
    List.filter_eq_self]
  intro id hid
  obtain ⟨c, hid⟩ := (mem_ids_iff a fraction streams _).mp hid
  obtain ⟨r, hr, -, hrid⟩ := mem_idsOf.mp ((ofCategory_subperm a fraction _ _).subset hid)
  have hcategory : r.category = category := by simpa using (List.mem_filter.mp hr).2
  exact decide_eq_true (mem_idsOf.mpr ⟨r, hr, hcategory, hrid⟩)

theorem idsOf_perm {records records' : List Record} (h : records'.Perm records)
    (category : String) :
  (idsOf records' category).Perm (idsOf records category)
  := (h.filter _).map _

/-- The order of the records does not matter. -/
theorem ofRecords_eq_of_perm (h : (records.map Record.id).Nodup) {records' : List Record}
    (hperm : records'.Perm records) :
  ofRecords a fraction streams records' = ofRecords a fraction streams records
  := by
  have h' : (records'.map Record.id).Nodup := (hperm.map _).nodup_iff.mpr h
  have hcounts : (ofRecords a fraction streams records').counts
      = (ofRecords a fraction streams records).counts := by
    apply Table.ext
    intro category
    have hids := idsOf_perm hperm category
    rw [counts_ofRecords, counts_ofRecords, Table.find?_map, Table.find?_map, find?_strata,
      find?_strata]
    by_cases hnil : idsOf records category = []
    · rw [if_pos hnil, if_pos (hnil ▸ hids).eq_nil]
    · rw [if_neg hnil, if_neg fun hnil' => hnil (hnil' ▸ hids).symm.eq_nil, Option.map_some,
        Option.map_some, hids.length_eq]
  have hids : (ofRecords a fraction streams records').ids
      = (ofRecords a fraction streams records).ids := by
    apply List.Pairwise.eq_of_mem_iff (ascending_ids a fraction streams h')
      (ascending_ids a fraction streams h)
    intro id
    rw [mem_ids_iff, mem_ids_iff]
    apply exists_congr
    intro category
    rw [ofCategory_eq_of_perm a fraction _ (idsOf_perm hperm category)]
  exact congrArg₂ Selection.mk hcounts hids

/-! ### Samples -/

/-- A selection has of every category of the records as many records as the policy says,
each of them once. -/
structure IsSampleOf (a : Allocation) (fraction : Nat) (records : List Record) (s : Selection) :
    Prop where
  /-- There is a count for every category of the records, and for no other. -/
  counts : ∀ category, s.counts.find? category
    = if records.any (·.category = category) then
        some (a.allocate (records.countP (·.category = category)) fraction)
      else none
  ascending : s.ids.Pairwise (· < ·)
  ids : ∀ id ∈ s.ids, ∃ r ∈ records, r.id = id
  /-- As many identifiers are those of records of a category as its count says. -/
  drawn : ∀ category k, s.counts.find? category = some k
    → s.ids.countP (· ∈ idsOf records category) = k
  length : s.ids.length = s.counts.values.sum

theorem find?_counts (category : String) :
  (ofRecords a fraction streams records).counts.find? category
    = if records.any (·.category = category) then
        some (a.allocate (records.countP (·.category = category)) fraction)
      else none
  := by
  have hany : records.any (·.category = category) = true ↔ ¬ idsOf records category = [] := by
    simp [idsOf]
  rw [counts_ofRecords, Table.find?_map, find?_strata]
  by_cases hnil : idsOf records category = []
  · rw [if_pos hnil, if_neg fun hsome => hany.mp hsome hnil]
    rfl
  · rw [if_neg hnil, if_pos (hany.mpr hnil), Option.map_some, length_idsOf]

theorem length_ids :
  (ofRecords a fraction streams records).ids.length
    = (ofRecords a fraction streams records).counts.values.sum
  := by
  rw [ids_ofRecords, (sort_perm _).length_eq, drawn, List.length_flatMap, counts_ofRecords,
    Table.values, Table.map, List.map_map]
  simp only [length_ofCategory]
  rfl

theorem isSampleOf_ofRecords (h : (records.map Record.id).Nodup) :
  IsSampleOf a fraction records (ofRecords a fraction streams records)
  where
    counts := find?_counts a fraction streams
    ascending := ascending_ids a fraction streams h
    ids := by
      intro id hid
      obtain ⟨category, hid⟩ := (mem_ids_iff a fraction streams records).mp hid
      obtain ⟨r, hr, -, hrid⟩ := mem_idsOf.mp ((ofCategory_subperm a fraction _ _).subset hid)
      exact ⟨r, hr, hrid⟩
    drawn := by
      intro category k hk
      rw [find?_counts] at hk
      split at hk
      · obtain rfl := Option.some.inj hk
        rw [List.countP_eq_length_filter, filter_ids a fraction streams h,
          (sort_perm _).length_eq, length_ofCategory, length_idsOf]
      · simp at hk
    length := length_ids a fraction streams

/-- Records with different identifiers are sampled category by category, whatever the
streams are: as many as the policy says, each once, independently of the order of the
records and of the other categories. -/
theorem ofRecords_by_category (h : (records.map Record.id).Nodup) :
  IsSampleOf a fraction records (ofRecords a fraction streams records)
    ∧ (∀ records', records'.Perm records
      → ofRecords a fraction streams records' = ofRecords a fraction streams records)
    ∧ ∀ category,
      (ofRecords a fraction streams records).ids.filter (· ∈ idsOf records category)
        = (ofRecords a fraction streams (records.filter (·.category = category))).ids
  := by
  refine ⟨isSampleOf_ofRecords a fraction streams h, ?_, ?_⟩
  · intro records' hperm
    exact ofRecords_eq_of_perm a fraction streams h hperm
  · exact filter_ids_eq_ofRecords_filter a fraction streams h

/-- Three records of two categories. -/
def threeRecords : List Record :=
  [⟨"c", "x", true, some true, none, [], .empty⟩, ⟨"a", "y", true, none, none, [], .empty⟩,
    ⟨"b", "x", false, some false, none, [], .empty⟩]

/-- Half of the records are drawn with the streams of a seed, one of each category. -/
theorem ofRecords_by_category_three_records :
  let s : Sampler := ⟨0.5, 500000, 42, .default⟩
  (threeRecords.map Record.id).Nodup
    ∧ IsSampleOf .default 500000 threeRecords (s.select threeRecords)
    ∧ s.select threeRecords.reverse = s.select threeRecords
    ∧ (s.select threeRecords).ids.length = 2
  := by
  have hnodup : (threeRecords.map Record.id).Nodup := by decide
  have hsample := ofRecords_by_category .default 500000
    (Sampler.stream ⟨0.5, 500000, 42, .default⟩) hnodup
  refine ⟨hnodup, hsample.1, hsample.2.1 _ (List.reverse_perm _), ?_⟩
  exact hsample.1.length

end CorpusAudit.Selection
