import CorpusAudit.Decode
import CorpusAudit.Proofs.Table

/-!
# Facts about reading values

A record with different names is read through its fields: what is found under a declared
name is what the record has there.
-/

namespace CorpusAudit.Decode

theorem bind_of_eq_some {α β : Type} {x : Option α} {a : α} (h : x = some a)
    (f : α → Option β) :
  (x >>= f) = f a
  := by
  rw [h]
  rfl

/-- The fields of a record with different names, as far as they are declared; others have
to be skipped. -/
theorem fields_record (d : Dialect) (declared : List String) (others : Bool)
    {fs : List (String × Value)} (hnodup : (fs.map (·.1)).Nodup)
    (hothers : others = true ∨ ∀ n ∈ fs.map (·.1), n ∈ declared) :
  ∃ given, fields d declared others (.record fs) = some given ∧ given.positional = false
    ∧ ∀ n ∈ declared, given.find? n = Table.lookup n fs
  := by
  let known := fs.filter fun f => declared.contains f.1
  have hknown : (known.map (·.1)).Nodup :=
    hnodup.sublist (List.filter_sublist.map _)
  have hlength : others = true ∨ known.length = fs.length := by
    rcases hothers with h | h
    · exact Or.inl h
    · right
      have : known = fs := by
        apply List.filter_eq_self.mpr
        intro f hf
        simpa using h f.1 (List.mem_map_of_mem hf)
      rw [this]
  refine ⟨⟨false, known⟩, ?_, rfl, ?_⟩
  · rw [fields, if_pos ⟨hknown, hlength⟩]
  · intro n hn
    apply Option.ext
    intro v
    have hfind : Fields.find? ⟨false, known⟩ n = Table.lookup n known := rfl
    rw [hfind, Table.lookup_eq_some_iff hknown, Table.lookup_eq_some_iff hnodup, List.mem_filter]
    simp [hn]

/-- A list is read where each of its items is. -/
theorem mapM_eq_some_iff {α β : Type} {d : α → Option β} {items : List α} {bs : List β} :
  items.mapM d = some bs ↔ List.Forall₂ (fun a b => d a = some b) items bs
  := by
  induction items generalizing bs with
  | nil => simp [eq_comm]
  | cons a items ih =>
    simp only [List.mapM_cons, Option.bind_eq_bind, Option.bind_eq_some_iff, Option.pure_def,
      Option.some.injEq, List.forall₂_cons_left_iff, ih]
    grind

theorem list_eq_some_iff {α : Type} {d : Decoder α} {v : Value} {as : List α} :
  list d v = some as ↔ ∃ vs, v = .list vs ∧ List.Forall₂ (fun v a => d v = some a) vs as
  := by
  cases v <;> simp [list, mapM_eq_some_iff]

theorem mapM_eq_some {α β : Type} {d : α → Option β} {f : α → β} {items : List α}
    (h : ∀ a ∈ items, d a = some (f a)) :
  items.mapM d = some (items.map f)
  := by
  rw [mapM_eq_some_iff, List.forall₂_map_right_iff, List.forall₂_same]
  exact h

/-- What is read from a list is read from its items. -/
theorem exists_mem_of_mapM {α β : Type} {d : α → Option β} {items : List α} {bs : List β}
    (h : items.mapM d = some bs) {b : β} (hb : b ∈ bs) :
  ∃ a ∈ items, d a = some b
  := by
  rw [mapM_eq_some_iff] at h
  induction h with
  | nil => simp at hb
  | @cons a b' items bs hread _ ih =>
    rcases List.mem_cons.mp hb with rfl | hb
    · exact ⟨a, List.mem_cons_self, hread⟩
    · obtain ⟨c, hc, hread⟩ := ih hb
      exact ⟨c, List.mem_cons_of_mem a hc, hread⟩

theorem list_text (ss : List String) :
  list text (.list (ss.map .text)) = some ss
  := by
  have h := mapM_eq_some (d := text ∘ Value.text) (f := id) fun s (_ : s ∈ ss) => rfl
  rw [list, List.mapM_map, h, List.map_id]

theorem option_of_ne_null {α : Type} {d : Decoder α} {v : Value} (h : v ≠ .null) :
  option d v = (d v).map some
  := by
  cases v <;> first | rfl | exact absurd rfl h

theorem option_ofOption {α : Type} {d : Decoder α} {f : α → Value}
    (h : ∀ a, f a ≠ .null ∧ d (f a) = some a) (o : Option α) :
  option d (.ofOption f o) = some o
  := by
  cases o with
  | none => rfl
  | some a =>
    rw [Value.ofOption, option_of_ne_null (h a).1, (h a).2]
    rfl

end CorpusAudit.Decode
