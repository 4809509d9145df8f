import CorpusAudit.Proofs.Decode
import CorpusAudit.Proofs.Json.Reals
import CorpusAudit.Proofs.Json.Writing
import CorpusAudit.Proofs.Value

/-!
# Decoding what was written

`Rereads n d v a` says that a decoder `d` reads `a` where the value `v` was written, which
has at most `n` lists and records inside each other.  There is a rule for every form of
value, so the reading of a document follows the form in which it is written.
-/

namespace CorpusAudit.Json

variable {α β : Type}

/-- The floating-point number that is read where a number was written. -/
def rereadFloat (x : Float) : Float :=
  match reread (.float x) with
  | .float y => y
  | _ => 0

/-! ### Nesting -/

/-- A numeral denotes no list and no record. -/
theorem depth_value? (s : Numeral) :
  (s.value?.getD .unreadable).depth = 0
  := by
  rw [Numeral.value?]
  dsimp only
  have hscaled (sign : Float → Value) (hsign : ∀ x, (sign x).depth = 0) (o : Option Float) :
      ((o.map sign).getD .unreadable).depth = 0 := by
    cases o with
    | none => rfl
    | some x => exact hsign x
  split
  · split_ifs <;> rfl
  · cases s.exponent with
    | none => exact hscaled _ (fun _ => rfl) _
    | some e =>
      dsimp only
      split
      · exact hscaled _ (fun _ => rfl) _
      · split_ifs <;> rfl

mutual

/-- What is read is not nested deeper than what was written. -/
theorem depth_reread_le : ∀ (v : Value), (reread v).depth ≤ v.depth
  | .null | .bool _ | .text _ | .unreadable => Nat.le_refl 0
  | .int _ => Nat.le_of_eq (depth_value? _)
  | .float x => by
    rw [reread]
    split
    · exact Nat.le_of_eq (depth_value? _)
    · exact Nat.le_refl 0
  | .list vs => Nat.succ_le_succ (depthItems_rereadItems_le vs)
  | .record fs => Nat.succ_le_succ (depthFields_rereadFields_le fs)

theorem depthItems_rereadItems_le :
    ∀ (vs : List Value), Value.depthItems (rereadItems vs) ≤ Value.depthItems vs
  | [] => Nat.le_refl 0
  | v :: vs => max_le_max (depth_reread_le v) (depthItems_rereadItems_le vs)

theorem depthFields_rereadFields_le :
    ∀ (fs : List (String × Value)), Value.depthFields (rereadFields fs) ≤ Value.depthFields fs
  | [] => Nat.le_refl 0
  | (_, v) :: fs => max_le_max (depth_reread_le v) (depthFields_rereadFields_le fs)

end

/-! ### What decoders read -/

/-- Where `v` was written, `d` reads `a`. -/
structure Rereads (n : Nat) (d : Decoder α) (v : Value) (a : α) : Prop where
  depth : (reread v).depth ≤ n
  decode : d (reread v) = some a

namespace Rereads

variable {n : Nat}

/-- What is read from the artifact that a value is written to. -/
theorem ofBytes?_render {d : Decoder α} {v : Value} {a : α} (h : Rereads maxDepth d v a) :
  (ofBytes? (Text.encode (render v))).bind d = some a
  := by
  rw [Json.ofBytes?_render, Value.limit_of_depth_le h.depth]
  exact h.decode

theorem mono {d : Decoder α} {v : Value} {a : α} (h : Rereads n d v a) {k : Nat} (hk : n ≤ k) :
  Rereads k d v a
  := ⟨Nat.le_trans h.depth hk, h.decode⟩

/-! ### Scalars -/

theorem text (s : String) :
  Rereads n Decode.text (.text s) s
  := ⟨Nat.zero_le n, rfl⟩

theorem bool (b : Bool) :
  Rereads n Decode.bool (.bool b) b
  := ⟨Nat.zero_le n, rfl⟩

theorem choice {named : String → Option α} {s : String} {a : α} (h : named s = some a) :
  Rereads n (Decode.choice .json named) (.text s) a
  := ⟨Nat.zero_le n, h⟩

theorem natBelow {k bound : Nat} (hk : k < UInt64.size) (h : k < bound) :
  Rereads n (Decode.natBelow bound) (.nat k) k
  where
    depth := by
      rw [Value.nat, reread, Numeral.value?_ofInt hk]
      exact Nat.zero_le n
    decode := by
      rw [Value.nat, reread, Numeral.value?_ofInt hk]
      simp [Decode.natBelow, h]

theorem count {k : Nat} (h : k < UInt64.size) :
  Rereads n Decode.count (.nat k) k
  := natBelow h h

/-- A finite number is read as a number. -/
theorem float {x : Float} (hx : x.isFinite = true) :
  Rereads n Decode.float (.float x) (rereadFloat x)
  := by
  obtain ⟨y, hy⟩ := value?_ofFloat hx
  have hreread : reread (.float x) = .float y := by
    rw [reread, if_pos hx, hy]
    rfl
  constructor
  · rw [hreread]
    exact Nat.zero_le n
  · rw [rereadFloat, hreread]
    rfl

/-! ### Lists and tables -/

theorem list {d : Decoder β} {f : α → Value} {g : α → β} {items : List α}
    (h : ∀ a ∈ items, Rereads n d (f a) (g a)) :
  Rereads (n + 1) (Decode.list d) (.list (items.map f)) (items.map g)
  := by
  have hreread : reread (.list (items.map f)) = .list (items.map fun a => reread (f a)) := by
    rw [reread, rereadItems_eq_map, List.map_map]
    rfl
  constructor
  · rw [hreread]
    apply Value.depth_list_le_iff.mpr
    intro v hv
    obtain ⟨a, ha, rfl⟩ := List.mem_map.mp hv
    exact (h a ha).depth
  · rw [hreread, Decode.list, List.mapM_map]
    exact Decode.mapM_eq_some fun a ha => (h a ha).decode

/-- The entries of a table are read as a table again. -/
theorem table {d : Decoder β} {f : α → Value} {g : α → β} {t : Table α}
    (h : ∀ e ∈ t.entries, Rereads n d (f e.2) (g e.2)) :
  Rereads (n + 1) (Decode.table d) (.record (t.entries.map fun e => (e.1, f e.2))) (t.map g)
  := by
  have hreread : reread (.record (t.entries.map fun e => (e.1, f e.2)))
      = .record (t.entries.map fun e => (e.1, reread (f e.2))) := by
    rw [reread, rereadFields_eq_map, List.map_map]
    rfl
  constructor
  · rw [hreread]
    apply Value.depth_record_le_iff.mpr
    intro e he
    obtain ⟨entry, hentry, rfl⟩ := List.mem_map.mp he
    exact (h entry hentry).depth
  · rw [hreread, Decode.table, List.mapM_map,
      Decode.mapM_eq_some (f := fun e => (e.1, g e.2))]
    · exact congrArg some (Table.ofList_entries (t.map g))
    · intro e he
      simp [(h e he).decode]

/-- A value or null; the value is not read as null itself. -/
theorem option {d : Decoder β} {f : α → Value} {g : α → β} {o : Option α}
    (h : ∀ a ∈ o, Rereads n d (f a) (g a) ∧ reread (f a) ≠ .null) :
  Rereads n (Decode.option d) (.ofOption f o) (o.map g)
  := by
  cases o with
  | none => exact ⟨Nat.zero_le n, rfl⟩
  | some a =>
    obtain ⟨hread, hnull⟩ := h a rfl
    refine ⟨hread.depth, ?_⟩
    rw [Value.ofOption, Decode.option_of_ne_null hnull, hread.decode]
    rfl

/-- An optional value is read back, if every value is. -/
theorem option_self {d : Decoder α} {f : α → Value} {o : Option α}
    (h : ∀ a ∈ o, Rereads n d (f a) a ∧ reread (f a) ≠ .null) :
  Rereads n (Decode.option d) (.ofOption f o) o
  := by
  have hread := option (g := id) h
  rwa [Option.map_id_apply] at hread

/-- A list is read back, if every item is. -/
theorem list_self {d : Decoder α} {f : α → Value} {items : List α}
    (h : ∀ a ∈ items, Rereads n d (f a) a) :
  Rereads (n + 1) (Decode.list d) (.list (items.map f)) items
  := by
  have hread := list (g := id) h
  rwa [List.map_id] at hread

/-- A table is read back, if the value of every entry is. -/
theorem table_self {d : Decoder α} {f : α → Value} {t : Table α}
    (h : ∀ e ∈ t.entries, Rereads n d (f e.2) e.2) :
  Rereads (n + 1) (Decode.table d) (.record (t.entries.map fun e => (e.1, f e.2))) t
  := by
  have hread := table (g := id) h
  have hsame : t.map id = t := by simp [Table.map]
  rwa [hsame] at hread

/-! ### Records -/

theorem depth_record {fs : List (String × Value)} (h : ∀ f ∈ fs, (reread f.2).depth ≤ n) :
  (reread (.record fs)).depth ≤ n + 1
  := by
  rw [reread, rereadFields_eq_map]
  apply Value.depth_record_le_iff.mpr
  intro e he
  obtain ⟨f, hf, rfl⟩ := List.mem_map.mp he
  exact h f hf

/-- The declared fields that are found where a record was written that may have others. -/
theorem fields_among {v : Value} {fs : List (String × Value)} (hv : v = .record fs)
    {names : List String} (hnames : fs.map (·.1) = names) (hnodup : names.Nodup)
    (declared : List String) :
  ∃ given, Decode.fields .json declared true (reread v) = some given
    ∧ ∀ f ∈ fs, f.1 ∈ declared → given.find? f.1 = some (reread f.2)
  := by
  have hreread : (fs.map fun f => (f.1, reread f.2)).map (·.1) = names := by
    rw [← hnames, List.map_map]
    rfl
  rw [← hreread] at hnodup
  obtain ⟨given, hgiven, -, hfind⟩ :=
    Decode.fields_record .json declared true hnodup (Or.inl rfl)
  refine ⟨given, ?_, ?_⟩
  · rw [hv, reread, rereadFields_eq_map, hgiven]
  · intro f hf hmem
    rw [hfind f.1 hmem, Table.lookup_eq_some_iff hnodup]
    exact List.mem_map_of_mem hf

/-- The fields that are found where a record of the declared fields was written. -/
theorem fields {v : Value} {fs : List (String × Value)} (hv : v = .record fs)
    {declared : List String} (hdeclared : fs.map (·.1) = declared) (hnodup : declared.Nodup) :
  ∃ given, Decode.fields .json declared true (reread v) = some given
    ∧ ∀ f ∈ fs, given.find? f.1 = some (reread f.2)
  := by
  obtain ⟨given, hgiven, hfind⟩ := fields_among hv hdeclared hnodup declared
  refine ⟨given, hgiven, ?_⟩
  intro f hf
  apply hfind f hf
  rw [← hdeclared]
  exact List.mem_map_of_mem hf

variable {given : Decode.Fields} {name : String} {v : Value}

theorem required {d : Decoder α} {a : α} (h : Rereads n d v a)
    (hfind : given.find? name = some (reread v)) :
  given.required name d = some a
  := by
  rw [Decode.Fields.required, hfind]
  exact h.decode

theorem orElse {d : Decoder α} {a : α} (h : Rereads n d v a)
    (hfind : given.find? name = some (reread v)) (b : α) :
  given.orElse name d b = some a
  := by
  rw [Decode.Fields.orElse, hfind]
  exact h.decode

theorem optional {d : Decoder α} {a : Option α} (h : Rereads n (Decode.option d) v a)
    (hfind : given.find? name = some (reread v)) :
  given.optional name d = some a
  := by
  rw [Decode.Fields.optional, hfind]
  exact h.decode

end Rereads

end CorpusAudit.Json
