import CorpusAudit.Table
import Mathlib

/-!
# Facts about tables

What a table holds after an entry is changed: its keys, the sum of its values when they
are counts, and, for a table built from a list, the last value of each key, or all items
of each key.
-/

namespace CorpusAudit.Table

variable {α β : Type}

/-! ### Counts -/

theorem sum_alterEntries {size : α → Nat} {d : Nat} {f : Option α → α}
    (h : ∀ a, size (f a) = (a.map size).getD 0 + d) (key : String) (es : List (String × α)) :
  ((alterEntries key f es).map fun e => size e.2).sum = (es.map fun e => size e.2).sum + d
  := by
  have hnone : size (f none) = d := by
    rw [h none]
    exact Nat.zero_add d
  have hsome (a : α) : size (f (some a)) = size a + d := h (some a)
  induction es with
  | nil => simp [alterEntries, hnone]
  | cons e es ih =>
    obtain ⟨k, a⟩ := e
    simp only [alterEntries]
    split
    · simp only [List.map_cons, List.sum_cons, hnone]
      omega
    · split
      · simp only [List.map_cons, List.sum_cons, hsome]
        omega
      · simp only [List.map_cons, List.sum_cons, ih]
        omega

/-- Changing an entry so that it grows by `d` lets the sum of the values grow by `d`. -/
theorem sum_values_alter {size : α → Nat} {d : Nat} {f : Option α → α}
    (h : ∀ a, size (f a) = (a.map size).getD 0 + d) (t : Table α) (key : String) :
  ((t.alter key f).values.map size).sum = (t.values.map size).sum + d
  := by
  have hsum := sum_alterEntries h key t.entries
  simp only [values, List.map_map]
  exact hsum

/-- Counting once more under a key adds one to the sum of the counts. -/
theorem sum_values_count (t : Table Nat) (key : String) :
  (t.alter key fun n => n.getD 0 + 1).values.sum = t.values.sum + 1
  := by
  have hone (n : Option Nat) : id (n.getD 0 + 1) = (n.map id).getD 0 + 1 := by
    cases n <;> rfl
  have h := sum_values_alter hone t key
  rwa [List.map_id, List.map_id] at h

/-! ### Look-ups -/

theorem mem_of_lookup {es : List (String × α)} {key : String} {a : α}
    (h : lookup key es = some a) :
  (key, a) ∈ es
  := by
  obtain ⟨e, he, rfl⟩ := Option.map_eq_some_iff.mp h
  have hkey : e.1 = key := by simpa using List.find?_some he
  rw [← hkey]
  exact List.mem_of_find?_eq_some he

/-- Among entries with different keys, a look-up finds the entry of the key. -/
theorem lookup_eq_some_iff {es : List (String × α)} (h : (es.map (·.1)).Nodup) {key : String}
    {a : α} :
  lookup key es = some a ↔ (key, a) ∈ es
  := by
  induction es with
  | nil => simp [lookup]
  | cons e es ih =>
    obtain ⟨k, b⟩ := e
    simp only [List.map_cons, List.nodup_cons] at h
    rw [lookup_cons]
    by_cases hk : k = key
    · subst hk
      have hnot : (k, a) ∉ es := fun hmem => h.1 (List.mem_map_of_mem hmem)
      simp [hnot, eq_comm]
    · simp [hk, ih h.2, Ne.symm hk]

theorem lookup_isSome_iff {es : List (String × α)} {key : String} :
  (lookup key es).isSome = true ↔ key ∈ es.map (·.1)
  := by
  simp [lookup, List.find?_isSome]

/-- Of items with different keys, one is the only one with its key. -/
theorem filter_key_eq {key : α → String} {items : List α} (h : (items.map key).Nodup) {a : α}
    (ha : a ∈ items) :
  items.filter (key · = key a) = [a]
  := by
  have hsame : ∀ b ∈ items.filter (key · = key a), b = a := by
    intro b hb
    obtain ⟨hb, hkey⟩ := List.mem_filter.mp hb
    exact List.inj_on_of_nodup_map h hb ha (by simpa using hkey)
  rw [← List.perm_singleton,
    List.perm_ext_iff_of_nodup (h.of_map.filter _) (List.nodup_singleton a)]
  intro b
  rw [List.mem_singleton]
  constructor
  · apply hsame
  · rintro rfl
    simp [ha]

theorem nodup_keys (t : Table α) :
  (t.entries.map (·.1)).Nodup
  := by
  rw [List.Nodup, List.pairwise_map]
  apply t.ascending.imp
  intro a b h heq
  exact String.lt_irrefl _ (heq ▸ h)

theorem ofList_concat (es : List (String × α)) (e : String × α) :
  ofList (es ++ [e]) = (ofList es).insert e.1 e.2
  := by
  simp [ofList]

/-- The table of a list has the last value of each key. -/
theorem find?_ofList (es : List (String × α)) (key : String) :
  (ofList es).find? key = lookup key es.reverse
  := by
  induction es using List.reverseRecOn with
  | nil => rfl
  | append_singleton es e ih =>
    rw [ofList_concat, List.reverse_append, List.reverse_singleton, List.singleton_append,
      insert]
    by_cases hk : key = e.1
    · subst hk
      rw [find?_alter_self, lookup_cons, if_pos rfl]
    · rw [find?_alter_ne _ _ hk, ih, lookup_cons, if_neg (Ne.symm hk)]

/-- The table of entries with different keys has these entries. -/
theorem find?_ofList_of_nodup {es : List (String × α)} (h : (es.map (·.1)).Nodup)
    (key : String) :
  (ofList es).find? key = lookup key es
  := by
  have hreverse : (es.reverse.map (·.1)).Nodup := by
    rw [List.map_reverse]
    exact List.nodup_reverse.mpr h
  rw [find?_ofList]
  apply Option.ext
  intro a
  rw [lookup_eq_some_iff hreverse, lookup_eq_some_iff h, List.mem_reverse]

theorem mem_entries_iff {t : Table α} {e : String × α} :
  e ∈ t.entries ↔ t.find? e.1 = some e.2
  := (lookup_eq_some_iff (nodup_keys t)).symm

theorem find?_map (f : α → β) (t : Table α) (key : String) :
  (t.map f).find? key = (t.find? key).map f
  := by
  simp only [find?, lookup, map, List.find?_map, Option.map_map]
  rfl

theorem find?_filterMap (f : α → Option β) (t : Table α) (key : String) :
  (t.filterMap f).find? key = (t.find? key).bind f
  := by
  apply Option.ext
  intro b
  rw [Option.bind_eq_some_iff, ← mem_entries_iff (t := t.filterMap f) (e := (key, b))]
  simp only [filterMap, List.mem_filterMap, Option.map_eq_some_iff, Prod.mk.injEq]
  constructor
  · rintro ⟨⟨k, a⟩, hmem, b', hb, rfl, rfl⟩
    exact ⟨a, mem_entries_iff.mp hmem, hb⟩
  · rintro ⟨a, hfind, hb⟩
    exact ⟨(key, a), mem_entries_iff.mpr hfind, b, hb, rfl, rfl⟩

/-- Entries may be changed in either order, also if it is one entry. -/
theorem alter_comm {f g : Option α → α} (h : ∀ a, f (some (g a)) = g (some (f a))) (t : Table α)
    (k l : String) :
  (t.alter k f).alter l g = (t.alter l g).alter k f
  := by
  apply ext
  intro key
  by_cases hk : key = k
  · subst hk
    by_cases hl : key = l
    · subst hl
      simp only [find?_alter_self, h]
    · rw [find?_alter_ne _ _ hl, find?_alter_self, find?_alter_self, find?_alter_ne _ _ hl]
  · rw [find?_alter_ne _ _ hk]
    by_cases hl : key = l
    · subst hl
      rw [find?_alter_self, find?_alter_self, find?_alter_ne _ _ hk]
    · rw [find?_alter_ne _ _ hl, find?_alter_ne _ _ hl, find?_alter_ne _ _ hk]

/-- Changing the entries of a list of keys changes each as often as its key is in the list. -/
theorem find?_foldl_alter_keys (f : Option α → α) (keys : List String) (t : Table α)
    (key : String) :
  (keys.foldl (fun t k => t.alter k f) t).find? key
    = (fun a => some (f a))^[keys.count key] (t.find? key)
  := by
  induction keys generalizing t with
  | nil => rfl
  | cons k keys ih =>
    rw [List.foldl_cons, ih]
    by_cases hk : k = key
    · subst hk
      rw [find?_alter_self, List.count_cons_self, Function.iterate_succ_apply]
    · rw [find?_alter_ne _ _ (Ne.symm hk), List.count_cons_of_ne hk]

theorem mem_keys_insert {t : Table α} {key other : String} {a : α} :
  other ∈ (t.insert key a).keys ↔ other = key ∨ other ∈ t.keys
  := by
  rw [← isSome_find?, ← isSome_find?, insert]
  by_cases hk : other = key
  · simp [hk, find?_alter_self]
  · simp [hk, find?_alter_ne t _ hk]

/-- A set is determined by its keys. -/
theorem eq_of_mem_keys {s t : Table Unit} (h : ∀ key, key ∈ s.keys ↔ key ∈ t.keys) :
  s = t
  := by
  apply ext
  intro key
  have hkey := h key
  rw [← isSome_find?, ← isSome_find?] at hkey
  cases hs : s.find? key <;> cases ht : t.find? key <;> simp_all

/-- A table is the table of its entries. -/
theorem ofList_entries (t : Table α) :
  ofList t.entries = t
  := by
  apply ext
  intro key
  exact find?_ofList_of_nodup (nodup_keys t) key

theorem mem_keys_ofList {es : List (String × α)} {key : String} :
  key ∈ (ofList es).entries.map (·.1) ↔ key ∈ es.map (·.1)
  := by
  rw [← lookup_isSome_iff, ← find?, find?_ofList, lookup_isSome_iff, List.map_reverse,
    List.mem_reverse]

/-! ### Unions -/

theorem find?_foldl_alter (combine : α → α → α) (s : Table α) {es : List (String × α)}
    (h : (es.map (·.1)).Nodup) (key : String) :
  (es.foldl (fun u e => u.alter e.1 fun
    | some a => combine a e.2
    | none => e.2) s).find? key
    = match s.find? key, lookup key es with
      | some a, some b => some (combine a b)
      | none, b => b
      | a, none => a
  := by
  induction es generalizing s with
  | nil =>
    rw [List.foldl_nil]
    cases s.find? key <;> rfl
  | cons e es ih =>
    obtain ⟨k, b⟩ := e
    simp only [List.map_cons, List.nodup_cons] at h
    rw [List.foldl_cons, ih _ h.2, lookup_cons]
    by_cases hk : k = key
    · subst hk
      have hnone : lookup k es = none := by
        rw [← Option.not_isSome_iff_eq_none, lookup_isSome_iff]
        exact h.1
      rw [find?_alter_self, hnone, if_pos rfl]
      cases s.find? k <;> rfl
    · rw [find?_alter_ne _ _ (Ne.symm hk), if_neg hk]

/-- The union of two tables has the entries of both. -/
theorem find?_merge (combine : α → α → α) (s t : Table α) (key : String) :
  (s.merge combine t).find? key
    = match s.find? key, t.find? key with
      | some a, some b => some (combine a b)
      | none, b => b
      | a, none => a
  := find?_foldl_alter combine s (nodup_keys t) key

/-- An entry of the second table may be changed after the union, if the change is of a kind
with the combination of values. -/
theorem merge_alter {combine : α → α → α} {f : Option α → α}
    (hnone : ∀ a, combine a (f none) = f (some a))
    (hsome : ∀ a b, combine a (f (some b)) = f (some (combine a b))) (s t : Table α)
    (k : String) :
  s.merge combine (t.alter k f) = (s.merge combine t).alter k f
  := by
  apply ext
  intro key
  by_cases hk : key = k
  · subst hk
    rw [find?_merge, find?_alter_self, find?_alter_self, find?_merge]
    cases s.find? key <;> cases t.find? key <;> simp [hnone, hsome]
  · rw [find?_merge, find?_alter_ne _ _ hk, find?_alter_ne _ _ hk, find?_merge]

/-! ### Groups -/

/-- The group of a key has the items with the key, and there is no empty group. -/
theorem find?_groupBy (key : α → String) (items : List α) (k : String) :
  (groupBy key items).find? k
    = if items.filter (key · = k) = [] then none else some (items.filter (key · = k))
  := by
  induction items with
  | nil => rfl
  | cons a items ih =>
    rw [groupBy, List.foldr_cons, ← groupBy]
    by_cases hk : key a = k
    · subst hk
      have hgroup : ((groupBy key items).find? (key a)).getD []
          = items.filter (key · = key a) := by
        rw [ih]
        split
        · next hnil => rw [hnil, Option.getD_none]
        · rfl
      rw [find?_alter_self, hgroup, List.filter_cons_of_pos (by simp), if_neg (by simp)]
    · rw [find?_alter_ne _ _ (Ne.symm hk), ih, List.filter_cons_of_neg (by simpa using hk)]

/-- Every item is in one group. -/
theorem sum_length_groupBy (key : α → String) (items : List α) :
  ((groupBy key items).values.map List.length).sum = items.length
  := by
  induction items with
  | nil => rfl
  | cons a items ih =>
    have hgrow (group : Option (List α)) :
        (a :: group.getD []).length = (group.map List.length).getD 0 + 1 := by
      cases group <;> rfl
    rw [groupBy, List.foldr_cons, ← groupBy, sum_values_alter hgrow, ih, List.length_cons]

end CorpusAudit.Table
