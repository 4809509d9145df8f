import CorpusAudit.Proofs.Storage.Closedness

/-!
# Searches

A search comes to a directory name by name, and goes on from there to the names in the
directory.  The paths that it finds have the names of the directory but for fillers
(`exists_comesThrough`), so they lead to where the names inside the directory lead
(`place_of_descend`).  A search comes nowhere where an empty name follows the dots at the
start of a relative path (`searched?_eq_none_iff`).
-/

namespace CorpusAudit

namespace Path

variable {absolute : Bool} {ns ms : List String} {p q q' : Path} {n name : String}

/-! ### The way of a search -/

/-- From `q` a search goes on to a name as if it had come through the names `ms`. -/
structure ComesThrough (absolute : Bool) (ms : List String) (q : Path) : Prop where
  parts : ∀ m ∈ ms, m ≠ "" ∧ '/' ∉ m.toList
  text : q.text ≠ ""
  next : ∀ n, n ≠ "" → '/' ∉ n.toList → q.descend n = some (ofNames absolute (ms ++ [n]))

theorem comesThrough_start :
  ComesThrough false [] ⟨"."⟩
  where
    parts := by simp
    text := by simp
    next := by
      intro n hn _
      simp [descend, hn, ofNames]

theorem comesThrough_root :
  ComesThrough true [] ⟨"/"⟩
  where
    parts := by simp
    text := by simp
    next := by
      intro n _ hseparator
      rw [descend, if_neg (by simp), join_of_closed hseparator (by simp)]
      simp [ofNames]

theorem comesThrough_origin (p : Path) :
  ComesThrough p.isAbsolute [] p.origin
  := by
  rw [origin]
  cases p.isAbsolute with
  | false => exact comesThrough_start
  | true => exact comesThrough_root

namespace ComesThrough

/-- An empty name leads a search nowhere else. -/
theorem empty (h : ComesThrough absolute ms q) (hq : q.descend "" = some q') :
  ComesThrough absolute ms q'
  := by
  have hdot : q.text ≠ "." := by
    intro hdot
    simp [descend, hdot] at hq
  obtain rfl : q.join ⟨""⟩ = q' := by simpa [descend, hdot] using hq
  by_cases hclosed : q.text.toList.getLast? = some '/'
  · rw [join_of_closed (by simp) hclosed, String.append_empty]
    exact h
  · rw [join_of_open (by simp) h.text hclosed, String.append_empty]
    refine ⟨h.parts, by simp, ?_⟩
    intro n hn hseparator
    have hnext := h.next n hn hseparator
    rw [descend, if_neg hdot, join_of_open hseparator h.text hclosed] at hnext
    rw [descend, if_neg (ne_of_separator_mem (by simp)).2, join_of_closed hseparator (by simp), hnext]

/-- A name leads a search on, but for a dot where it starts. -/
theorem append (h : ComesThrough absolute ms q) (hn : n ≠ "") (hseparator : '/' ∉ n.toList)
    (hq : q.descend n = some q') :
  ComesThrough absolute (ms ++ [n]) q' ∨ n = "." ∧ ms = [] ∧ ComesThrough absolute ms q'
  := by
  obtain rfl : ofNames absolute (ms ++ [n]) = q' := by
    rw [h.next n hn hseparator] at hq
    exact Option.some.inj hq
  have hparts : ∀ m ∈ ms ++ [n], m ≠ "" ∧ '/' ∉ m.toList := by
    intro m hm
    rcases List.mem_append.mp hm with hm | hm
    · exact h.parts m hm
    · rw [List.mem_singleton.mp hm]
      exact ⟨hn, hseparator⟩
  have htext : (ofNames absolute (ms ++ [n])).text ≠ "" :=
    text_ofNames_ne_empty absolute (by simp) hn
  by_cases hdot : (ofNames absolute (ms ++ [n])).text = "."
  · -- the search is where it started
    right
    have hsame : ofNames absolute (ms ++ [n]) = ⟨"."⟩ := congrArg Path.mk hdot
    obtain rfl : absolute = false := by
      cases absolute with
      | false => rfl
      | true =>
        have hchars := congrArg String.toList hdot
        simp [toList_ofNames] at hchars
    have hsplit : (ofNames false (ms ++ [n])).names = ms ++ [n] := by
      apply names_ofNames (by simp) (fun m hm => (hparts m hm).2)
      intro _ hhead
      exact (hparts "" (List.mem_of_head? hhead)).1 rfl
    have hnames : ms ++ [n] = ["."] := by
      rw [← hsplit, hsame]
      decide
    obtain ⟨rfl, rfl⟩ : ms = [] ∧ n = "." := by
      cases ms <;> simp_all
    exact ⟨rfl, rfl, hsame ▸ comesThrough_start⟩
  · left
    refine ⟨hparts, htext, ?_⟩
    intro m hm hseparator'
    rw [descend, if_neg hdot, join_ofNames hseparator' (fun k hk => (hparts k hk).2)]
    simpa using hn

end ComesThrough

/-- Names lead to the same places, whatever the tree. -/
def LeadAlike (ms ns : List String) : Prop :=
  ∀ (t : Tree) (l : Location), ms.foldlM t.enter l = ns.foldlM t.enter l

theorem LeadAlike.filler (ms ns : List String) (hn : n = "" ∨ n = ".") :
  LeadAlike (ms ++ ns) (ms ++ n :: ns)
  := by
  intro t l
  rw [List.foldlM_append, List.foldlM_append]
  apply bind_congr
  intro k
  rw [List.foldlM_cons, Tree.enter_filler t k hn]
  rfl

/-- A search comes through the names but for fillers. -/
theorem ComesThrough.exists_of_foldlM (h : ComesThrough absolute ms q)
    (hseparated : ∀ n ∈ ns, '/' ∉ n.toList) (hq : ns.foldlM descend q = some q') :
  ∃ ms', ComesThrough absolute ms' q' ∧ ms'.Sublist (ms ++ ns) ∧ LeadAlike ms' (ms ++ ns)
  := by
  induction ns generalizing q ms with
  | nil =>
    obtain rfl : q = q' := Option.some.inj hq
    exact ⟨ms, h, by simp, by simp [LeadAlike]⟩
  | cons n ns ih =>
    rw [List.foldlM_cons, Option.bind_eq_bind, Option.bind_eq_some_iff] at hq
    obtain ⟨r, hr, hq⟩ := hq
    have hrest : ∀ m ∈ ns, '/' ∉ m.toList := fun m hm => hseparated m (List.mem_cons_of_mem n hm)
    have hskip (hn : n = "" ∨ n = ".") (hr : ComesThrough absolute ms r) :
        ∃ ms', ComesThrough absolute ms' q' ∧ ms'.Sublist (ms ++ n :: ns)
          ∧ LeadAlike ms' (ms ++ n :: ns) := by
      obtain ⟨ms', hms', hsublist, halike⟩ := ih hr hrest hq
      refine ⟨ms', hms', hsublist.trans ((List.sublist_cons_self n ns).append_left ms), ?_⟩
      intro t l
      rw [halike t l, LeadAlike.filler ms ns hn t l]
    -- a name is skipped or comes after those before it
    by_cases hn : n = ""
    · subst hn
      exact hskip (.inl rfl) (h.empty hr)
    · rcases h.append hn (hseparated n List.mem_cons_self) hr with hr | ⟨hdot, -, hr⟩
      · obtain ⟨ms', hms', hsublist, halike⟩ := ih hr hrest hq
        rw [List.append_assoc, List.singleton_append] at hsublist halike
        exact ⟨ms', hms', hsublist, halike⟩
      · exact hskip (.inr hdot) hr

theorem exists_comesThrough (h : p.searched? = some q) :
  ∃ ms, ComesThrough p.isAbsolute ms q ∧ ms.Sublist p.names ∧ LeadAlike ms p.names
  := (comesThrough_origin p).exists_of_foldlM (fun _ => separator_not_mem) h

/-! ### Searches that come nowhere -/

/-- The path is relative, and an empty name follows the dots with which it starts. -/
def IsLost (p : Path) : Prop :=
  p.isAbsolute = false ∧ ∃ k rest, p.names = List.replicate k "." ++ "" :: rest

theorem isSome_foldlM_descend (hq : q.text ≠ "" ∧ q.text ≠ ".")
    (hseparated : ∀ n ∈ ns, '/' ∉ n.toList) :
  (ns.foldlM descend q).isSome = true
  := by
  induction ns generalizing q with
  | nil => rfl
  | cons n ns ih =>
    have hn := hseparated n List.mem_cons_self
    rw [List.foldlM_cons, descend, if_neg hq.2]
    exact ih (ne_of_separator_mem (separator_mem_join hn hq.1))
      fun m hm => hseparated m (List.mem_cons_of_mem n hm)

theorem foldlM_descend_start_eq_none_iff (hseparated : ∀ n ∈ ns, '/' ∉ n.toList) :
  ns.foldlM descend ⟨"."⟩ = none ↔ ∃ k rest, ns = List.replicate k "." ++ "" :: rest
  := by
  induction ns with
  | nil => simp
  | cons n ns ih =>
    have hrest : ∀ m ∈ ns, '/' ∉ m.toList := fun m hm => hseparated m (List.mem_cons_of_mem n hm)
    rw [List.foldlM_cons]
    by_cases hempty : n = ""
    · subst hempty
      simp only [descend, if_true, Option.bind_eq_bind, Option.bind_none, true_iff]
      exact ⟨0, ns, rfl⟩
    · by_cases hdot : n = "."
      · subst hdot
        have hstay : descend ⟨"."⟩ "." = some ⟨"."⟩ := rfl
        rw [hstay, Option.bind_eq_bind, Option.bind_some, ih hrest]
        constructor
        · rintro ⟨k, rest, rfl⟩
          exact ⟨k + 1, rest, rfl⟩
        · rintro ⟨k, rest, hnames⟩
          cases k with
          | zero => simp at hnames
          | succ k => exact ⟨k, rest, (List.cons.inj hnames).2⟩
      · have hnext : descend ⟨"."⟩ n = some ⟨n⟩ := by simp [descend, hempty]
        have hsome := isSome_foldlM_descend (q := ⟨n⟩) ⟨hempty, hdot⟩ hrest
        rw [hnext, Option.bind_eq_bind, Option.bind_some]
        apply iff_of_false (Option.isSome_iff_ne_none.mp hsome)
        rintro ⟨k, rest, hnames⟩
        cases k with
        | zero => exact hempty (List.cons.inj hnames).1
        | succ k => exact hdot (List.cons.inj hnames).1

theorem searched?_eq_none_iff :
  p.searched? = none ↔ p.IsLost
  := by
  rw [searched?, origin, IsLost]
  cases p.isAbsolute with
  | false => simp [foldlM_descend_start_eq_none_iff fun _ => separator_not_mem]
  | true =>
    have hsome : (p.names.foldlM descend ⟨"/"⟩).isSome = true :=
      isSome_foldlM_descend (by simp) fun _ => separator_not_mem
    simp [Option.isSome_iff_ne_none.mp hsome]

instance : Decidable p.IsLost :=
  decidable_of_iff _ searched?_eq_none_iff

end Path

namespace Tree

open CorpusAudit.Path (ofNames)

variable {t : Tree} {p q q' : Path} {l : Location} {ms : List String} {name : String}
  {place : Place}

/-! ### Where names inside a directory lead -/

/-- A name that a file may have. -/
structure IsName (name : String) : Prop where
  nonempty : name ≠ ""
  dot : name ≠ "."
  up : name ≠ ".."
  separated : '/' ∉ name.toList

/-- The names of a path to a directory lead there one after the other. -/
theorem foldlM_enter_of_resolve (h : t.resolve p = .ok (l, .directory)) :
  p.names.foldlM t.enter [] = .ok l
  := by
  rcases resolve_eq_ok h with ⟨hplace, -⟩ | ⟨folder, name, closed, hplace, rfl, hnode, -⟩
  · exact foldlM_enter_of_place_top hplace
  · obtain ⟨hempty, hdot, hup, before, k, hnames, hfolder⟩ := names_of_place_entry hplace
    have hsize := size_of_place_entry hplace
    have henter : t.enter folder name = .ok (folder ++ [name]) := by
      simp [enter, hempty, hdot, hup, Nat.not_lt.mpr hsize, hnode]
    rw [hnames, foldlM_enter_append]
    refine ⟨folder, hfolder, ?_⟩
    rw [List.foldlM_cons, henter]
    exact foldlM_enter_fillers t _ k

/-- A path whose last name is one of a file leads to this name, where the others lead. -/
theorem place_eq_ok_iff_of_names (hname : IsName name) (hp : p.names = ms ++ [name]) :
  t.place p = .ok place ↔ IsFollowable p ∧ name.utf8ByteSize ≤ longestName
    ∧ ∃ l, ms.foldlM t.enter [] = .ok l ∧ place = .entry l name false
  := by
  have hlast : p.names.reverse.dropWhile (· = "") = name :: ms.reverse := by
    simp [hp, hname.nonempty]
  have hopen : decide (p.names.reverse.head? = some "") = false := by
    simp [hp, hname.nonempty]
  rw [place_eq_ok_iff, hlast]
  simp only [List.reverse_reverse, hname.dot, hname.up, or_self, if_false, hopen]
  apply and_congr_right
  intro _
  constructor
  · rintro ⟨l, hl, hsize, rfl⟩
    exact ⟨hsize, l, hl, rfl⟩
  · rintro ⟨hsize, l, hl, rfl⟩
    exact ⟨l, hl, hsize, rfl⟩

/-- Fewer names can be followed as well. -/
theorem isFollowable_of_sublist {absolute : Bool} {ns : List String}
    (h : IsFollowable (ofNames absolute ns)) (hms : ms.Sublist ns) (hname : name ∈ ms)
    (hnonempty : name ≠ "") :
  IsFollowable (ofNames absolute ms)
  := by
  have hchars := Path.text_ofNames_sublist absolute hms
  refine ⟨fun hnul => h.1 (hchars.subset hnul), Path.text_ofNames_ne_empty absolute hname hnonempty, ?_⟩
  rw [← String.utf8Len_toList]
  exact (String.utf8Len_le_of_sublist hchars).trans (String.utf8Len_toList _ ▸ h.2.2)

theorem names_ofNames_concat {absolute : Bool} (hname : IsName name)
    (hseparated : ∀ n ∈ ms, '/' ∉ n.toList) (hhead : absolute = false → ms.head? ≠ some "") :
  (ofNames absolute (ms ++ [name])).names = ms ++ [name]
  := by
  apply Path.names_ofNames (by simp)
  · intro n hn
    rcases List.mem_append.mp hn with hn | hn
    · exact hseparated n hn
    · rw [List.mem_singleton.mp hn]
      exact hname.separated
  · intro hrelative
    cases ms with
    | nil => simpa using hname.nonempty
    | cons m ms => simpa using hhead hrelative

/-- The name inside a directory follows the names of the directory, but for an empty one at
their end. -/
theorem names_join (hp : p.text ≠ "") (hname : IsName name) :
  ∃ ns, p.join ⟨name⟩ = ofNames p.isAbsolute (ns ++ [name]) ∧ (p.join ⟨name⟩).names = ns ++ [name]
    ∧ (p.names.filter (· ≠ "")).Sublist ns ∧ Path.LeadAlike ns p.names
  := by
  obtain ⟨ns, hjoin, hns⟩ := Path.exists_join_eq hp hname.separated
  obtain ⟨hbegins, hfilter, halike⟩ : ns <+: p.names ∧ (p.names.filter (· ≠ "")).Sublist ns
      ∧ Path.LeadAlike ns p.names := by
    rcases hns with h | h
    · rw [h]
      exact ⟨List.prefix_rfl, List.filter_sublist, fun _ _ => rfl⟩
    · have halike := Path.LeadAlike.filler ns [] (n := "") (.inl rfl)
      rw [List.append_nil] at halike
      rw [h]
      exact ⟨List.prefix_append ns [""], by simp, halike⟩
  refine ⟨ns, hjoin, ?_, hfilter, halike⟩
  rw [hjoin]
  apply names_ofNames_concat hname
  · intro n hn
    exact Path.separator_not_mem (hbegins.mem hn)
  · intro hrelative hhead
    apply Path.head_names_ne_empty hp hrelative
    obtain ⟨rest, hrest⟩ := hbegins
    rw [← hrest, List.head?_append, hhead]
    rfl

/-- From a directory a search goes on to all names as if it had come through those of the
directory, but for fillers. -/
theorem exists_descend (hq : p.searched? = some q) :
  ∃ ms, ms.Sublist (p.names.filter (· ≠ "")) ∧ Path.LeadAlike ms p.names
    ∧ ∀ name, IsName name → q.descend name = some (ofNames p.isAbsolute (ms ++ [name]))
      ∧ (ofNames p.isAbsolute (ms ++ [name])).names = ms ++ [name]
  := by
  obtain ⟨ms, hms, hsublist, halike⟩ := Path.exists_comesThrough hq
  refine ⟨ms, ?_, halike, fun name hname => ⟨hms.next name hname.nonempty hname.separated, ?_⟩⟩
  · have hparts : ms.filter (· ≠ "") = ms := by
      apply List.filter_eq_self.mpr
      intro m hm
      simpa using (hms.parts m hm).1
    rw [← hparts]
    exact hsublist.filter _
  · apply names_ofNames_concat hname
    · intro n hn
      exact (hms.parts n hn).2
    · intro _ hhead
      exact (hms.parts "" (List.mem_of_head? hhead)).1 rfl

/-- A search finds a name inside a directory by a path that leads to the same place. -/
theorem place_of_descend (hp : p.text ≠ "") (hq : p.searched? = some q) (hname : IsName name)
    (hplace : t.place (p.join ⟨name⟩) = .ok place) :
  ∃ q', q.descend name = some q' ∧ t.place q' = .ok place
  := by
  obtain ⟨ns, hjoin, hnames, hfilter, hleads⟩ := names_join hp hname
  obtain ⟨ms, hsublist, hleads', hsearch⟩ := exists_descend hq
  obtain ⟨hnext, hnames'⟩ := hsearch name hname
  obtain ⟨hfollowable, hsize, l, hl, rfl⟩ := (place_eq_ok_iff_of_names hname hnames).mp hplace
  refine ⟨_, hnext, (place_eq_ok_iff_of_names hname hnames').mpr ⟨?_, hsize, l, ?_, rfl⟩⟩
  · rw [hjoin] at hfollowable
    exact isFollowable_of_sublist hfollowable ((hsublist.trans hfilter).append_right [name])
      (by simp) hname.nonempty
  · rw [hleads' t, ← hleads t, hl]

/-- A name inside a directory is in the directory where the names of this one lead. -/
theorem entry_of_join (hp : p.text ≠ "") (hname : IsName name)
    (hplace : t.place (p.join ⟨name⟩) = .ok place) :
  ∃ l, p.names.foldlM t.enter [] = .ok l ∧ place = .entry l name false
  := by
  obtain ⟨ns, -, hnames, -, hleads⟩ := names_join hp hname
  obtain ⟨-, -, l, hl, hentry⟩ := (place_eq_ok_iff_of_names hname hnames).mp hplace
  exact ⟨l, by rw [← hleads t, hl], hentry⟩

/-- Where a search finds a name in a directory, the directory is where its names lead. -/
theorem entry_of_descend (hq : p.searched? = some q) (hname : IsName name)
    (hnext : q.descend name = some q') (hplace : t.place q' = .ok place) :
  ∃ l, p.names.foldlM t.enter [] = .ok l ∧ place = .entry l name false
  := by
  obtain ⟨ms, -, hleads, hsearch⟩ := exists_descend hq
  obtain ⟨hnext', hnames⟩ := hsearch name hname
  obtain rfl : _ = q' := Option.some.inj (hnext'.symm.trans hnext)
  obtain ⟨-, -, l, hl, hentry⟩ := (place_eq_ok_iff_of_names hname hnames).mp hplace
  exact ⟨l, by rw [← hleads t, hl], hentry⟩

end Tree

end CorpusAudit
