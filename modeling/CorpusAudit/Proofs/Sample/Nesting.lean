import CorpusAudit.Proofs.Sample.Selecting

/-!
# Nested samples

A sample of a greater part of the same records, drawn with the same seed and policy, has
all that the smaller sample has: in every category not fewer records are drawn, and those
that are drawn first are the same (`Sampler.select_nested`).
-/

namespace CorpusAudit

namespace Selection

theorem flatMap_sublist_flatMap {α β : Type} {f g : α → List β} {items : List α}
    (h : ∀ a ∈ items, (f a).Sublist (g a)) :
  (items.flatMap f).Sublist (items.flatMap g)
  := by
  induction items with
  | nil => exact List.Sublist.refl []
  | cons a items ih =>
    rw [List.flatMap_cons, List.flatMap_cons]
    apply List.Sublist.append (h a List.mem_cons_self)
    exact ih fun b hb => h b (List.mem_cons_of_mem a hb)

theorem sort_sublist_sort {ids ids' : List String} (h : ids.Subperm ids') :
  (sort ids).Sublist (sort ids')
  := by
  have hsubperm : (sort ids).Subperm (sort ids') :=
    ((sort_perm ids).subperm.trans h).trans (sort_perm ids').symm.subperm
  exact List.sublist_of_subperm_of_pairwise hsubperm (pairwise_sort ids) (pairwise_sort ids')

variable (a : Allocation) {fraction fraction' : Nat} (streams : String → Random.Stream)
  {records : List Record}

/-- What is drawn of a category at a fraction is drawn first at a greater one. -/
theorem ofCategory_sublist (h : fraction ≤ fraction') (hmost : fraction' ≤ Allocation.million)
    (s : Random.Stream) {ids : List String} (hfew : ids.length < UInt64.size) :
  (ofCategory a fraction s ids).Sublist (ofCategory a fraction' s ids)
  := by
  have hcount := a.allocate_mono hfew h hmost
  exact (Random.choose_suffix_choose s hcount (sort ids)).sublist

theorem length_idsOf_lt (hfew : records.length < UInt64.size) (category : String) :
  (idsOf records category).length < UInt64.size
  := by
  rw [length_idsOf]
  exact Nat.lt_of_le_of_lt List.countP_le_length hfew

theorem ids_sublist (h : fraction ≤ fraction') (hmost : fraction' ≤ Allocation.million)
    (hfew : records.length < UInt64.size) :
  (ofRecords a fraction streams records).ids.Sublist (ofRecords a fraction' streams records).ids
  := by
  rw [ids_ofRecords, ids_ofRecords]
  apply sort_sublist_sort
  apply List.Sublist.subperm
  apply flatMap_sublist_flatMap
  intro e he
  apply ofCategory_sublist a h hmost
  rw [(mem_strata.mp he).2]
  exact length_idsOf_lt hfew e.1

theorem counts_mono (h : fraction ≤ fraction') (hmost : fraction' ≤ Allocation.million)
    (hfew : records.length < UInt64.size) {category : String} {k : Nat}
    (hk : (ofRecords a fraction streams records).counts.find? category = some k) :
  ∃ k', (ofRecords a fraction' streams records).counts.find? category = some k' ∧ k ≤ k'
  := by
  rw [find?_counts] at hk ⊢
  split at hk
  · next hsome =>
    obtain rfl := Option.some.inj hk
    refine ⟨_, if_pos hsome, ?_⟩
    exact a.allocate_mono (Nat.lt_of_le_of_lt List.countP_le_length hfew) h hmost
  · simp at hk

end Selection

/-- A sample of a greater part of the same records, with the same seed and policy, has the
identifiers of the smaller one among its own, and not fewer of any category.  Records are
counted in 64 bits; their identifiers need not differ. -/
theorem Sampler.select_nested {s t : Sampler} (hseed : s.seed = t.seed)
    (hallocation : s.allocation = t.allocation) (h : s.millionths ≤ t.millionths)
    (hmost : t.millionths ≤ Allocation.million) {records : List Record}
    (hfew : records.length < UInt64.size) :
  (s.select records).ids.Sublist (t.select records).ids
    ∧ ∀ category k, (s.select records).counts.find? category = some k
      → ∃ k', (t.select records).counts.find? category = some k' ∧ k ≤ k'
  := by
  have hstream : s.stream = t.stream := by
    funext category
    rw [stream, stream, hseed]
  rw [select, select, hallocation, hstream]
  constructor
  · exact Selection.ids_sublist t.allocation t.stream h hmost hfew
  · intro category k hk
    exact Selection.counts_mono t.allocation t.stream h hmost hfew hk

/-- A third of three records and all of them, drawn with the same seed. -/
theorem Sampler.select_nested_three_records :
  let s : Sampler := ⟨0.3, 300000, 42, .default⟩
  let t : Sampler := ⟨1, 1000000, 42, .default⟩
  (s.select Selection.threeRecords).ids.Sublist (t.select Selection.threeRecords).ids
    ∧ (s.select Selection.threeRecords).counts.find? "x" = some 1
    ∧ (t.select Selection.threeRecords).counts.find? "x" = some 2
  := by
  have hnested := select_nested (s := ⟨0.3, 300000, 42, .default⟩)
    (t := ⟨1, 1000000, 42, .default⟩) rfl rfl (by decide) (by decide)
    (by decide : Selection.threeRecords.length < UInt64.size)
  exact ⟨hnested.1, by decide, by decide⟩

end CorpusAudit
