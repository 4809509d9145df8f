import CorpusAudit.Proofs.Gate.Comparing

/-!
# Laws of comparisons

A comparison tells the keys of two snapshots apart (`IsPartition`), and its net change is the
difference of how many of the shared keys pass.  To compare the other way round swaps what
has come to pass with what has ceased to, and comparisons of one snapshot after the other
can be chained, as long as the middle one has the keys that the outer ones share
(`laws`).
-/

namespace CorpusAudit

/-! ### The other way round -/

/-- What became of a key the other way round. -/
def Change.swap : Change → Change
  | .nowPassing => .regressed
  | .regressed => .nowPassing
  | .unchanged => .unchanged
  | .noPriorData => .noPriorData

theorem Change.befell_swap {before after : Option Bool} {c : Change} :
  c.Befell after before ↔ c.swap.Befell before after
  := by
  cases c with
  | nowPassing => exact and_comm
  | regressed => exact and_comm
  | unchanged => exact exists_congr fun _ => and_comm
  | noPriorData => exact ne_comm

theorem Changes.get_between_swap (before after : Table Bool) (c : Change) :
  (between after before).get c = (between before after).get c.swap
  := by
  apply Table.eq_of_mem_keys
  intro key
  rw [mem_between, mem_between, Change.befell_swap]

namespace Comparison

/-- The comparison the other way round. -/
def swapped (c : Comparison) : Comparison :=
  { c with nowPassing := c.regressed, regressed := c.nowPassing, netChange := -c.netChange }

variable {before after : Snapshot} {c : Comparison} {key : String}

theorem of_swapped (h : of before after = .ok c) :
  of after before = .ok c.swapped
  := by
  obtain ⟨hlevel, rfl⟩ := of_eq_ok_iff.mp h
  have hnow := Changes.get_between_swap before.entries after.entries .nowPassing
  have hregressed := Changes.get_between_swap before.entries after.entries .regressed
  have hunchanged := Changes.get_between_swap before.entries after.entries .unchanged
  have hopen := Changes.get_between_swap before.entries after.entries .noPriorData
  simp only [Changes.get, Change.swap] at hnow hregressed hunchanged hopen
  rw [of_eq_ok_iff]
  refine ⟨hlevel.symm, ?_⟩
  simp only [ofChanges, swapped, hnow, hregressed, hunchanged, hopen, hlevel, neg_sub]

/-! ### Keys told apart -/

/-- The keys of two snapshots are told apart: every key is told of once, and nothing can be
said of those that are in only one of them. -/
structure IsPartition (before after : Snapshot) (c : Comparison) : Prop where
  disjoint : [c.nowPassing, c.regressed, c.unchanged, c.noPriorData].Pairwise List.Disjoint
  nodup : ∀ keys ∈ [c.nowPassing, c.regressed, c.unchanged, c.noPriorData], keys.Nodup
  mem_iff : ∀ key, key ∈ c.nowPassing ∨ key ∈ c.regressed ∨ key ∈ c.unchanged ∨ key ∈ c.noPriorData
    ↔ key ∈ before.entries.keys ∨ key ∈ after.entries.keys
  mem_noPriorData_iff : ∀ key, key ∈ c.noPriorData
    ↔ ¬(key ∈ before.entries.keys ↔ key ∈ after.entries.keys)

theorem isPartition (h : of before after = .ok c) :
  IsPartition before after c
  := by
  constructor
  case disjoint =>
    simp only [List.pairwise_cons, List.forall_mem_cons, List.not_mem_nil, List.Disjoint,
      mem_nowPassing h, mem_regressed h, mem_unchanged h, mem_noPriorData h]
    grind
  case nodup =>
    obtain ⟨-, rfl⟩ := of_eq_ok_iff.mp h
    simp only [List.forall_mem_cons, List.not_mem_nil, false_imp_iff, implies_true, and_true]
    exact ⟨Table.nodup_keys _, Table.nodup_keys _, Table.nodup_keys _, Table.nodup_keys _⟩
  case mem_iff =>
    intro key
    rw [mem_nowPassing h, mem_regressed h, mem_unchanged h, mem_noPriorData h,
      ← Table.isSome_find?, ← Table.isSome_find?]
    rcases before.entries.find? key with _ | (_ | _) <;>
      rcases after.entries.find? key with _ | (_ | _) <;> simp
  case mem_noPriorData_iff =>
    intro key
    rw [mem_noPriorData h, ← Table.isSome_find?, ← Table.isSome_find?]
    cases before.entries.find? key <;> cases after.entries.find? key <;> simp

/-! ### The net change -/

end Comparison

/-- The keys that pass in a snapshot, of those that another one has as well. -/
def Snapshot.passingShared (s other : Snapshot) : List String :=
  s.entries.keys.filter fun key =>
    s.entries.find? key = some true && (other.entries.find? key).isSome

theorem Snapshot.mem_passingShared {s other : Snapshot} {key : String} :
  key ∈ s.passingShared other
    ↔ s.entries.find? key = some true ∧ (other.entries.find? key).isSome = true
  := by
  rw [passingShared, List.mem_filter, ← Table.isSome_find?]
  simp only [Bool.and_eq_true, decide_eq_true_eq, and_iff_right_iff_imp, and_imp]
  intro hpasses _
  rw [hpasses, Option.isSome_some]

theorem Snapshot.nodup_passingShared (s other : Snapshot) :
  (s.passingShared other).Nodup
  := (Table.nodup_keys s.entries).filter _

/-- Which keys pass of those that are shared is a matter of which keys the other one has. -/
theorem Snapshot.passingShared_congr {s other other' : Snapshot}
    (h : ∀ key, key ∈ other.entries.keys ↔ key ∈ other'.entries.keys) :
  s.passingShared other = s.passingShared other'
  := by
  have hsome (key : String) :
      (other.entries.find? key).isSome = (other'.entries.find? key).isSome := by
    rw [Bool.eq_iff_iff, Table.isSome_find?, Table.isSome_find?, h]
  simp only [passingShared, hsome]

namespace Comparison

/-- The net change is the difference of how many of the shared keys pass. -/
theorem netChange_eq (h : of before after = .ok c) :
  c.netChange = (after.passingShared before).length - (before.passingShared after).length
  := by
  have hpartition := isPartition h
  have hnodup := hpartition.nodup
  simp only [List.forall_mem_cons] at hnodup
  -- of the keys that pass in one of them, the others pass in both
  have hboth : (c.unchanged.filter (· ∈ before.passingShared after)).Nodup :=
    hnodup.2.2.1.filter _
  have hmem (key : String) : key ∈ c.unchanged.filter (· ∈ before.passingShared after)
      ↔ before.entries.find? key = some true ∧ after.entries.find? key = some true := by
    rw [List.mem_filter, mem_unchanged h, decide_eq_true_eq, Snapshot.mem_passingShared]
    grind
  generalize c.unchanged.filter (· ∈ before.passingShared after) = both at hboth hmem
  have hafter : (after.passingShared before).Perm (c.nowPassing ++ both) := by
    rw [List.perm_ext_iff_of_nodup (after.nodup_passingShared before)]
    · intro key
      rw [List.mem_append, Snapshot.mem_passingShared, mem_nowPassing h, hmem]
      rcases before.entries.find? key with _ | (_ | _) <;> simp
    · refine hnodup.1.append hboth ?_
      intro key hkey hkey'
      rw [mem_nowPassing h] at hkey
      simp [hmem, hkey.1] at hkey'
  have hbefore : (before.passingShared after).Perm (c.regressed ++ both) := by
    rw [List.perm_ext_iff_of_nodup (before.nodup_passingShared after)]
    · intro key
      rw [List.mem_append, Snapshot.mem_passingShared, mem_regressed h, hmem]
      rcases after.entries.find? key with _ | (_ | _) <;> simp
    · refine hnodup.2.1.append hboth ?_
      intro key hkey hkey'
      rw [mem_regressed h] at hkey
      simp [hmem, hkey.2] at hkey'
  rw [hafter.length_eq, hbefore.length_eq, List.length_append, List.length_append]
  obtain ⟨-, rfl⟩ := of_eq_ok_iff.mp h
  simp only [ofChanges, Table.size, Table.keys, List.length_map]
  omega

/-! ### Chains -/

theorem isRegression_eq_false_iff (h : of before after = .ok c) :
  c.isRegression = false
    ↔ ∀ key, before.entries.find? key = some true → after.entries.find? key ≠ some false
  := by
  rw [isRegression, Bool.not_eq_false', List.isEmpty_iff, regressed_eq_nil_iff h]

/-- What passes keeps passing along a chain, if the middle snapshot has the keys that the
outer ones share. -/
theorem isRegression_chain {s t u : Snapshot} {d e f : Comparison} (hd : of s t = .ok d)
    (he : of t u = .ok e) (hf : of s u = .ok f)
    (hkeys : ∀ key, key ∈ s.entries.keys → key ∈ u.entries.keys → key ∈ t.entries.keys)
    (hfirst : d.isRegression = false) (hsecond : e.isRegression = false) :
  f.isRegression = false
  := by
  rw [isRegression_eq_false_iff hd] at hfirst
  rw [isRegression_eq_false_iff he] at hsecond
  rw [isRegression_eq_false_iff hf]
  intro key hpasses hfails
  have hmiddle := hkeys key (by rw [← Table.isSome_find?, hpasses]; rfl)
    (by rw [← Table.isSome_find?, hfails]; rfl)
  rw [← Table.isSome_find?, Option.isSome_iff_exists] at hmiddle
  obtain ⟨passes, hfind⟩ := hmiddle
  cases passes with
  | true => exact hsecond key hfind hfails
  | false => exact hfirst key hpasses hfind

/-- Net changes between snapshots of the same keys add up. -/
theorem netChange_chain {s t u : Snapshot} {d e f : Comparison} (hd : of s t = .ok d)
    (he : of t u = .ok e) (hf : of s u = .ok f)
    (hst : ∀ key, key ∈ s.entries.keys ↔ key ∈ t.entries.keys)
    (htu : ∀ key, key ∈ t.entries.keys ↔ key ∈ u.entries.keys) :
  f.netChange = d.netChange + e.netChange
  := by
  rw [netChange_eq hd, netChange_eq he, netChange_eq hf, Snapshot.passingShared_congr hst,
    Snapshot.passingShared_congr (fun key => (htu key).symm),
    Snapshot.passingShared_congr (s := t) (fun key => (hst key).trans (htu key))]
  omega

/-- A snapshot compared with itself has unchanged keys and no others. -/
theorem of_self (s : Snapshot) :
  ∃ d, of s s = .ok d ∧ d.nowPassing = [] ∧ d.regressed = [] ∧ d.noPriorData = []
    ∧ ∀ key, key ∈ d.unchanged ↔ key ∈ s.entries.keys
  := by
  have hd := of_eq_ok_iff.mpr ⟨rfl (a := s.level), rfl⟩
  refine ⟨_, hd, ?_, ?_, (noPriorData_eq_nil_iff hd).mpr fun _ => rfl, ?_⟩
  · simp only [List.eq_nil_iff_forall_not_mem, mem_nowPassing hd]
    grind
  · simp only [List.eq_nil_iff_forall_not_mem, mem_regressed hd]
    grind
  · intro key
    rw [mem_unchanged hd, ← Table.isSome_find?, Option.isSome_iff_exists]
    simp only [and_self]

/-- The laws of comparisons: when there is one, how it tells the keys apart, what it is the
other way round and what its net change is; a snapshot compared with itself; and comparisons
of one snapshot after the other. -/
theorem laws (s t u : Snapshot) :
  ((∃ d, of s t = .ok d) ↔ s.level = t.level)
    ∧ (∀ d, of s t = .ok d → IsPartition s t d ∧ of t s = .ok d.swapped
      ∧ d.netChange = (t.passingShared s).length - (s.passingShared t).length)
    ∧ (∃ d, of s s = .ok d ∧ d.nowPassing = [] ∧ d.regressed = [] ∧ d.noPriorData = []
      ∧ ∀ key, key ∈ d.unchanged ↔ key ∈ s.entries.keys)
    ∧ ∀ d e, of s t = .ok d → of t u = .ok e → ∃ f, of s u = .ok f
      ∧ ((∀ key, key ∈ s.entries.keys → key ∈ u.entries.keys → key ∈ t.entries.keys) →
        d.isRegression = false → e.isRegression = false → f.isRegression = false)
      ∧ ((∀ key, key ∈ s.entries.keys ↔ key ∈ t.entries.keys) →
        (∀ key, key ∈ t.entries.keys ↔ key ∈ u.entries.keys) →
        f.netChange = d.netChange + e.netChange)
  := by
  refine ⟨?succeeds, ?swaps, of_self s, ?chains⟩
  case succeeds =>
    simp only [of_eq_ok_iff, exists_and_left, exists_eq, and_true]
  case swaps =>
    intro d hd
    exact ⟨isPartition hd, of_swapped hd, netChange_eq hd⟩
  case chains =>
    intro d e hd he
    have hf := of_eq_ok_iff.mpr
      ⟨(of_eq_ok_iff.mp hd).1.trans (of_eq_ok_iff.mp he).1, rfl⟩
    exact ⟨_, hf, isRegression_chain hd he hf, netChange_chain hd he hf⟩

/-- A snapshot of two categories that pass or not. -/
def twoCategories (first second : Bool) : Snapshot :=
  ⟨.category, .ofList [("a", first), ("b", second)]⟩

/-- Where one of two categories comes to pass after the other, both do in the end. -/
theorem laws_two_categories :
  ∃ d e f, of (twoCategories false false) (twoCategories true false) = .ok d
    ∧ of (twoCategories true false) (twoCategories true true) = .ok e
    ∧ of (twoCategories false false) (twoCategories true true) = .ok f
    ∧ f.isRegression = false ∧ f.netChange = d.netChange + e.netChange
  := by
  have hd : of (twoCategories false false) (twoCategories true false)
      = .ok ⟨.category, ["a"], [], ["b"], [], 1⟩ := by
    decide
  have he : of (twoCategories true false) (twoCategories true true)
      = .ok ⟨.category, ["b"], [], ["a"], [], 1⟩ := by
    decide
  obtain ⟨f, hf, hpasses, hnet⟩ := (laws (twoCategories false false) (twoCategories true false)
    (twoCategories true true)).2.2.2 _ _ hd he
  have hkeys : ∀ first second, (twoCategories first second).entries.keys = ["a", "b"] := by
    decide
  refine ⟨_, _, f, hd, he, hf, hpasses ?_ rfl rfl, hnet ?_ ?_⟩
  · intro key hkey _
    rwa [hkeys] at hkey ⊢
  · intro key
    rw [hkeys, hkeys]
  · intro key
    rw [hkeys, hkeys]

end Comparison

end CorpusAudit
