/-!
# Tables

A `Table` is a finite map from texts to values whose entries stand in ascending order of
their keys, so that a table is determined by what it answers.  The main statements say
what a look-up finds after one entry is changed, and that tables with equal answers are
equal.
-/

namespace CorpusAudit

namespace Table

/-- Change the entry of a key among entries with ascending keys; `f` is given what the
key has, if it is there. -/
def alterEntries {α : Type} (key : String) (f : Option α → α) :
    List (String × α) → List (String × α)
  | [] => [(key, f none)]
  | (k, a) :: es =>
    if key < k then (key, f none) :: (k, a) :: es
    else if key = k then (key, f (some a)) :: es
    else (k, a) :: alterEntries key f es

/-- The value of the first entry with the given key. -/
def lookup {α : Type} (key : String) (es : List (String × α)) : Option α :=
  (es.find? (·.1 = key)).map (·.2)

/-- The keys of a table ascend strictly. -/
def Ascending {α : Type} (es : List (String × α)) : Prop :=
  es.Pairwise fun a b => a.1 < b.1

theorem lookup_cons {α : Type} (key k : String) (a : α) (es : List (String × α)) :
  lookup key ((k, a) :: es) = if k = key then some a else lookup key es
  := by
  simp only [lookup, List.find?_cons]
  by_cases h : k = key <;> simp [h]

/-- The changed entries are those of before and the one of the key. -/
theorem mem_alterEntries {α : Type} {key : String} {f : Option α → α} {e : String × α}
    {es : List (String × α)} (h : e ∈ alterEntries key f es) :
  e.1 = key ∨ e ∈ es
  := by
  induction es with
  | nil => simp_all [alterEntries]
  | cons d es ih => grind [alterEntries]

theorem ascending_alterEntries {α : Type} (key : String) (f : Option α → α)
    {es : List (String × α)} (h : Ascending es) :
  Ascending (alterEntries key f es)
  := by
  induction es with
  | nil => simp [alterEntries, Ascending]
  | cons d es ih =>
    obtain ⟨k, a⟩ := d
    have hk := List.pairwise_cons.mp h
    simp only [alterEntries]
    split
    · next hlt =>
      apply List.pairwise_cons.mpr
      refine ⟨?_, h⟩
      intro e he
      rcases List.mem_cons.mp he with rfl | he
      · exact hlt
      · exact String.lt_trans hlt (hk.1 e he)
    · split
      · next heq =>
        subst heq
        exact List.pairwise_cons.mpr hk
      · next hlt hne =>
        apply List.pairwise_cons.mpr
        refine ⟨?_, ih hk.2⟩
        intro e he
        rcases mem_alterEntries he with he | he
        · rw [he]
          apply Classical.byContradiction
          intro hn
          exact hne (String.le_antisymm hn hlt)
        · exact hk.1 e he

theorem lookup_alterEntries_self {α : Type} (key : String) (f : Option α → α)
    {es : List (String × α)} (h : Ascending es) :
  lookup key (alterEntries key f es) = some (f (lookup key es))
  := by
  induction es with
  | nil => simp [alterEntries, lookup]
  | cons d es ih =>
    obtain ⟨k, a⟩ := d
    have hk := List.pairwise_cons.mp h
    simp only [alterEntries]
    split
    · next hlt =>
      have hnone : lookup key ((k, a) :: es) = none := by
        simp only [lookup, Option.map_eq_none_iff, List.find?_eq_none, decide_eq_true_eq]
        intro e he heq
        rcases List.mem_cons.mp he with rfl | he
        · exact String.lt_irrefl _ (heq ▸ hlt)
        · exact String.lt_irrefl _ (heq ▸ String.lt_trans hlt (hk.1 e he))
      rw [hnone, lookup_cons, if_pos rfl]
    · split
      · next heq => simp [lookup_cons, heq]
      · next hne => simp [lookup_cons, Ne.symm hne, ih hk.2]

theorem lookup_alterEntries_ne {α : Type} {key other : String} (f : Option α → α)
    (es : List (String × α)) (h : other ≠ key) :
  lookup other (alterEntries key f es) = lookup other es
  := by
  induction es with
  | nil => simp [alterEntries, lookup, Ne.symm h]
  | cons d es ih =>
    obtain ⟨k, a⟩ := d
    simp only [alterEntries]
    split
    · simp [lookup_cons, Ne.symm h]
    · split
      · next heq =>
        subst heq
        simp [lookup_cons, Ne.symm h]
      · simp [lookup_cons, ih]

end Table

/-- A finite map from texts, its entries by ascending key. -/
structure Table (α : Type) where
  entries : List (String × α)
  ascending : Table.Ascending entries
deriving DecidableEq

namespace Table

variable {α β : Type}

/-- The table without entries. -/
def empty : Table α :=
  ⟨[], List.Pairwise.nil⟩

instance : Inhabited (Table α) := ⟨empty⟩

instance [Repr α] : Repr (Table α) := ⟨fun t n => reprPrec t.entries n⟩

/-- The value of a key. -/
def find? (t : Table α) (key : String) : Option α :=
  lookup key t.entries

/-- Change the entry of a key; `f` is given what the key has, if it is there. -/
def alter (t : Table α) (key : String) (f : Option α → α) : Table α :=
  ⟨alterEntries key f t.entries, ascending_alterEntries key f t.ascending⟩

/-- Put an entry into the table, over one with the same key. -/
def insert (t : Table α) (key : String) (a : α) : Table α :=
  t.alter key fun _ => a

/-- The table of the given entries, the last of each key. -/
def ofList (es : List (String × α)) : Table α :=
  es.foldl (fun t e => t.insert e.1 e.2) empty

/-- The keys in ascending order. -/
def keys (t : Table α) : List String :=
  t.entries.map (·.1)

/-- The values in the order of their keys. -/
def values (t : Table α) : List α :=
  t.entries.map (·.2)

/-- The number of entries. -/
def size (t : Table α) : Nat :=
  t.entries.length

/-- The table with every value changed by `f`. -/
def map (f : α → β) (t : Table α) : Table β :=
  ⟨t.entries.map fun e => (e.1, f e.2), by
    simpa [Ascending, List.pairwise_map] using t.ascending⟩

/-- The table of the values that `f` keeps, changed by it. -/
def filterMap (f : α → Option β) (t : Table α) : Table β :=
  ⟨t.entries.filterMap fun e => (f e.2).map fun b => (e.1, b), by
    apply List.Pairwise.filterMap _ _ t.ascending
    intro a a' h b hb b' hb'
    simp only [Option.map_eq_some_iff] at hb hb'
    obtain ⟨_, _, rfl⟩ := hb
    obtain ⟨_, _, rfl⟩ := hb'
    exact h⟩

/-- The table with the entries of both; where a key is in both, the values are
combined. -/
def merge (combine : α → α → α) (s t : Table α) : Table α :=
  t.entries.foldl (fun u e => u.alter e.1 fun
    | some a => combine a e.2
    | none => e.2) s

/-- The items of a list by their keys, those of one key in the order of the list. -/
def groupBy (key : α → String) (items : List α) : Table (List α) :=
  items.foldr (fun a t => t.alter (key a) fun group => a :: group.getD []) empty

@[simp]
theorem find?_empty (key : String) :
  (empty : Table α).find? key = none
  := rfl

theorem find?_alter_self (t : Table α) (key : String) (f : Option α → α) :
  (t.alter key f).find? key = some (f (t.find? key))
  := lookup_alterEntries_self key f t.ascending

theorem find?_alter_ne (t : Table α) {key other : String} (f : Option α → α)
    (h : other ≠ key) :
  (t.alter key f).find? other = t.find? other
  := lookup_alterEntries_ne f t.entries h

/-- A key is in the table exactly when it has a value. -/
theorem isSome_find? (t : Table α) (key : String) :
  (t.find? key).isSome = true ↔ key ∈ t.keys
  := by
  simp [find?, lookup, keys, List.find?_isSome]

/-- Entries with ascending keys are determined by what is looked up in them. -/
theorem entries_eq_of_lookup {es fs : List (String × α)} (he : Ascending es) (hf : Ascending fs)
    (h : ∀ key, lookup key es = lookup key fs) :
  es = fs
  := by
  induction es generalizing fs with
  | nil =>
    cases fs with
    | nil => rfl
    | cons d fs =>
      have := h d.1
      simp [lookup] at this
  | cons d es ih =>
    cases fs with
    | nil =>
      have := h d.1
      simp [lookup] at this
    | cons e fs =>
      obtain ⟨k, a⟩ := d
      obtain ⟨l, b⟩ := e
      have hes := List.pairwise_cons.mp he
      have hfs := List.pairwise_cons.mp hf
      have below {k : String} {gs : List (String × α)} (hg : ∀ g ∈ gs, k < g.1) :
          lookup k gs = none := by
        simp only [lookup, Option.map_eq_none_iff, List.find?_eq_none, decide_eq_true_eq]
        intro g hm heq
        exact String.lt_irrefl k (heq ▸ hg g hm)
      have hkl : k = l := by
        apply Classical.byContradiction
        intro hne
        have h1 := h k
        have h2 := h l
        simp only [lookup_cons, if_true, if_neg hne, if_neg (Ne.symm hne)] at h1 h2
        have m1 : l < k := by
          have : (lookup k fs).isSome = true := by simp [← h1]
          simp only [lookup, Option.isSome_map, List.find?_isSome, decide_eq_true_eq] at this
          obtain ⟨g, hg, rfl⟩ := this
          exact hfs.1 g hg
        have m2 : k < l := by
          have : (lookup l es).isSome = true := by simp [h2]
          simp only [lookup, Option.isSome_map, List.find?_isSome, decide_eq_true_eq] at this
          obtain ⟨g, hg, rfl⟩ := this
          exact hes.1 g hg
        exact String.lt_asymm m1 m2
      subst hkl
      have hab := h k
      simp only [lookup_cons, if_true, Option.some.injEq] at hab
      rw [hab]
      congr 1
      apply ih hes.2 hfs.2
      intro key
      by_cases hk : k = key
      · subst hk
        rw [below hes.1, below hfs.1]
      · have := h key
        simpa [lookup_cons, hk] using this

/-- A table is determined by what it answers. -/
theorem ext {s t : Table α} (h : ∀ key, s.find? key = t.find? key) :
  s = t
  := by
  obtain ⟨es, he⟩ := s
  obtain ⟨fs, hf⟩ := t
  have : es = fs := entries_eq_of_lookup he hf h
  subst this
  rfl

end Table

end CorpusAudit
