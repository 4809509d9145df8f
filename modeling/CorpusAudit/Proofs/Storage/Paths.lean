import CorpusAudit.Storage.Artifact
import Mathlib

/-!
# Facts about paths

A path that is put together of names has these names again (`names_ofNames`), and every
path is put together of its names (`ofNames_names`).  A name inside a directory is the last
name of its path (`exists_join_eq`).  The directories that a path lies in are named by a
beginning of its names (`names_of_mem_folders`), and its temporary path by the same names but
the last, which is longer (`names_temporary`).
-/

namespace CorpusAudit.Path

/-! ### Names -/

theorem not_mem_of_mem_splitOnP {α : Type} {P : α → Bool} {cs part : List α}
    (h : part ∈ cs.splitOnP P) :
  ∀ c ∈ part, P c = false
  := by
  induction cs generalizing part with
  | nil =>
    rw [List.splitOnP_nil, List.mem_singleton] at h
    simp [h]
  | cons d cs ih =>
    rw [List.splitOnP_cons_eq_if_modifyHead] at h
    split at h
    · rcases List.mem_cons.mp h with rfl | h
      · simp
      · exact ih h
    · next hd =>
      obtain ⟨first, rest, hsplit⟩ := List.exists_cons_of_ne_nil (List.splitOnP_ne_nil P cs)
      rw [hsplit] at h ih
      rcases List.mem_cons.mp h with rfl | h
      · intro c hc
        rcases List.mem_cons.mp hc with rfl | hc
        · simpa using hd
        · exact ih List.mem_cons_self c hc
      · exact ih (List.mem_cons_of_mem _ h)

theorem separator_not_mem {p : Path} {n : String} (h : n ∈ p.names) :
  '/' ∉ n.toList
  := by
  obtain ⟨part, hpart, rfl⟩ := List.mem_map.mp h
  intro hmem
  rw [List.splitOn_eq_splitOnP] at hpart
  simpa using not_mem_of_mem_splitOnP hpart '/' (by simpa using hmem)

theorem names_ne_nil (p : Path) :
  p.names ≠ []
  := by
  simp [names, List.splitOn_ne_nil]

/-- A relative path that starts with an empty name has no other. -/
theorem names_of_head_empty {p : Path} (hp : p.isAbsolute = false) (h : p.names.head? = some "") :
  p.names = [""]
  := by
  simp only [names, hp, Bool.false_eq_true, if_false] at h ⊢
  cases hsplit : p.text.toList.splitOn '/' with
  | nil => exact absurd hsplit (List.splitOn_ne_nil _ _)
  | cons first rest =>
    rw [hsplit] at h
    obtain rfl : first = [] := by simpa [← String.toList_inj] using h
    cases rest with
    | nil => rfl
    | cons second rest =>
      -- the text would start with a separator
      have htext : ['/'].intercalate (p.text.toList.splitOn '/') = p.text.toList :=
        List.intercalate_splitOn '/'
      rw [hsplit, List.intercalate_cons_cons] at htext
      simp [isAbsolute, ← htext] at hp

variable {absolute : Bool} {ns : List String}

theorem toList_ofNames :
  (ofNames absolute ns).text.toList
    = (if absolute then ['/'] else []) ++ ['/'].intercalate (ns.map String.toList)
  := by
  cases absolute <;> simp [ofNames, String.toList_intercalate]

/-- A path of names that do not start like an absolute one is relative. -/
theorem isAbsolute_ofNames (hsep : ∀ n ∈ ns, '/' ∉ n.toList)
    (hhead : absolute = false → ns.head? ≠ some "") :
  (ofNames absolute ns).isAbsolute = absolute
  := by
  rw [isAbsolute, toList_ofNames]
  cases absolute with
  | true => simp
  | false =>
    cases ns with
    | nil => rfl
    | cons n ns =>
      have hn : n ≠ "" := by simpa using hhead rfl
      obtain ⟨c, cs, hcs⟩ := List.exists_cons_of_ne_nil (mt String.toList_eq_nil_iff.mp hn)
      have hc : c ≠ '/' := by
        rintro rfl
        exact hsep n List.mem_cons_self (by simp [hcs])
      cases ns <;> simp [hcs, hc, List.intercalate_cons_cons]

/-- A path put together of names has these names. -/
theorem names_ofNames (hns : ns ≠ []) (hsep : ∀ n ∈ ns, '/' ∉ n.toList)
    (hhead : absolute = false → ns.head? ≠ some "") :
  (ofNames absolute ns).names = ns
  := by
  have hsplit : (['/'].intercalate (ns.map String.toList)).splitOn '/' = ns.map String.toList := by
    apply List.splitOn_intercalate
    · simpa using hsep
    · simpa using hns
  rw [names, isAbsolute_ofNames hsep hhead, toList_ofNames]
  cases absolute <;> simp [hsplit]

/-- The text that is put together of names ends like the last one. -/
theorem exists_text_ofNames (absolute : Bool) (ns : List String) (n : String) :
  ∃ before, (ofNames absolute (ns ++ [n])).text = before ++ n
  := by
  by_cases hns : ns = []
  · exact ⟨if absolute then "/" else "", by simp [ofNames, hns]⟩
  · refine ⟨(if absolute then "/" else "") ++ (String.intercalate "/" ns ++ "/"), ?_⟩
    simp [ofNames, String.intercalate_append_of_ne_nil hns, String.append_assoc]

theorem isAbsolute_name {name : String} (hname : '/' ∉ name.toList) :
  (Path.mk name).isAbsolute = false
  := by
  have hhead : name.toList.head? ≠ some '/' := fun h => hname (List.mem_of_head? h)
  simpa [isAbsolute] using hhead

/-- Inside a directory that is named without a separator at its end, a name is added to
those of the directory. -/
theorem join_ofNames {name : String} (hname : '/' ∉ name.toList)
    (hsep : ∀ n ∈ ns, '/' ∉ n.toList) (hlast : ns.getLast? ≠ some "") :
  (ofNames absolute ns).join ⟨name⟩ = ofNames absolute (ns ++ [name])
  := by
  rw [join, isAbsolute_name hname]
  by_cases hns : ns = []
  · subst hns
    cases absolute <;> simp [ofNames]
  · obtain ⟨front, last, rfl⟩ := List.eq_nil_or_concat' ns |>.resolve_left hns
    have hne : last.toList ≠ [] := by simpa [String.toList_eq_nil_iff] using hlast
    have hopen : last.toList.getLast? ≠ some '/' := fun h =>
      hsep last (by simp) (List.mem_of_getLast? h)
    obtain ⟨before, hbefore⟩ := exists_text_ofNames absolute front last
    have hend : ¬ ((ofNames absolute (front ++ [last])).text = ""
        || (ofNames absolute (front ++ [last])).text.toList.getLast? = some '/') := by
      rw [hbefore]
      simp [List.getLast?_append_of_ne_nil _ hne, hopen, ← String.toList_eq_nil_iff, hne]
    rw [if_neg (by simp), if_neg hend]
    simp only [ofNames, Path.mk.injEq]
    rw [String.intercalate_append_of_ne_nil hns (List.cons_ne_nil name []),
      String.intercalate_singleton]
    simp only [String.append_assoc]

/-! ### Texts of names -/

variable {ms : List String} {p : Path} {n name : String}

/-- A path is put together of its names. -/
theorem ofNames_names (p : Path) :
  ofNames p.isAbsolute p.names = p
  := by
  have hjoin (cs : List Char) :
      ['/'].intercalate (((cs.splitOn '/').map String.ofList).map String.toList) = cs := by
    rw [List.map_map, Function.comp_def]
    simp [List.intercalate_splitOn]
  have htext : (ofNames p.isAbsolute p.names).text.toList = p.text.toList := by
    rw [toList_ofNames, names, hjoin]
    cases h : p.isAbsolute with
    | false => simp
    | true =>
      have hhead : p.text.toList.head? = some '/' := by simpa [isAbsolute] using h
      simpa using List.cons_head?_tail hhead
  exact congrArg Path.mk (String.toList_inj.mp htext)

theorem mem_intercalate_iff {sep : List Char} {ps : List (List Char)} {c : Char} (hc : c ∉ sep) :
  c ∈ sep.intercalate ps ↔ ∃ part ∈ ps, c ∈ part
  := by
  induction ps with
  | nil => simp
  | cons part ps ih =>
    cases ps with
    | nil => simp
    | cons part' ps => simp [List.intercalate_cons_cons, hc, ih]

/-- The characters of a path are those of its names. -/
theorem mem_text_ofNames_iff {c : Char} (hc : c ≠ '/') :
  c ∈ (ofNames absolute ns).text.toList ↔ ∃ n ∈ ns, c ∈ n.toList
  := by
  rw [toList_ofNames, List.mem_append, mem_intercalate_iff (by simpa using hc)]
  cases absolute <;> simp [hc]

theorem intercalate_sublist {sep : List Char} {ps ts : List (List Char)} (h : ps.Sublist ts) :
  (sep.intercalate ps).Sublist (sep.intercalate ts)
  := by
  induction h with
  | slnil => exact List.Sublist.refl _
  | @cons ps ts t h ih =>
    cases ts with
    | nil => simp_all
    | cons t' ts =>
      rw [List.intercalate_cons_cons]
      exact ih.trans (List.sublist_append_right _ _)
  | @cons_cons ps ts t h ih =>
    cases ts with
    | nil => simp_all
    | cons t' ts =>
      rw [List.intercalate_cons_cons]
      cases ps with
      | nil =>
        rw [List.append_assoc, List.intercalate_singleton]
        exact List.sublist_append_left _ _
      | cons p' ps =>
        rw [List.intercalate_cons_cons]
        exact ih.append_left _

/-- With fewer names a text has no other characters, and no more of them. -/
theorem text_ofNames_sublist (absolute : Bool) (h : ms.Sublist ns) :
  (ofNames absolute ms).text.toList.Sublist (ofNames absolute ns).text.toList
  := by
  rw [toList_ofNames, toList_ofNames]
  exact (intercalate_sublist (h.map _)).append_left _

theorem text_ofNames_ne_empty (absolute : Bool) (hns : n ∈ ns) (hn : n ≠ "") :
  (ofNames absolute ns).text ≠ ""
  := by
  have hsublist := text_ofNames_sublist absolute (List.singleton_sublist.mpr hns)
  intro hempty
  rw [hempty, toList_ofNames] at hsublist
  have hchars := List.sublist_nil.mp hsublist
  simp [String.toList_eq_nil_iff, hn] at hchars

/-! ### Names inside a directory -/

/-- A relative path that is not empty does not start with an empty name. -/
theorem head_names_ne_empty (hp : p.text ≠ "") (hrelative : p.isAbsolute = false) :
  p.names.head? ≠ some ""
  := by
  intro hhead
  apply hp
  have hsame := ofNames_names p
  rw [hrelative, names_of_head_empty hrelative hhead] at hsame
  rw [← hsame]
  rfl

theorem join_of_closed (hname : '/' ∉ name.toList) (hp : p.text.toList.getLast? = some '/') :
  p.join ⟨name⟩ = ⟨p.text ++ name⟩
  := by
  rw [join, isAbsolute_name hname]
  simp [hp]

theorem join_of_open (hname : '/' ∉ name.toList) (hp : p.text ≠ "")
    (hopen : p.text.toList.getLast? ≠ some '/') :
  p.join ⟨name⟩ = ⟨p.text ++ "/" ++ name⟩
  := by
  rw [join, isAbsolute_name hname]
  simp [hp, hopen]

/-- The text of a name inside a directory is longer, and has a separator. -/
theorem separator_mem_join (hname : '/' ∉ name.toList) (hp : p.text ≠ "") :
  '/' ∈ (p.join ⟨name⟩).text.toList
  := by
  by_cases hclosed : p.text.toList.getLast? = some '/'
  · rw [join_of_closed hname hclosed]
    simp [List.mem_of_getLast? hclosed]
  · rw [join_of_open hname hp hclosed]
    simp

theorem ne_of_separator_mem (h : '/' ∈ p.text.toList) :
  p.text ≠ "" ∧ p.text ≠ "."
  := by
  constructor
  · intro hempty
    simp [hempty] at h
  · intro hdot
    simp [hdot] at h

theorem text_ofNames_concat (absolute : Bool) (ns : List String) (n : String) :
  (ofNames absolute (ns ++ [n])).text = (ofNames absolute (ns ++ [""])).text ++ n
  := by
  by_cases hns : ns = []
  · simp [ofNames, hns]
  · simp [ofNames, String.intercalate_append_of_ne_nil hns, String.append_assoc]

theorem getLast?_text_ofNames (absolute : Bool) (ns : List String)
    (h : (ofNames absolute (ns ++ [""])).text ≠ "") :
  (ofNames absolute (ns ++ [""])).text.toList.getLast? = some '/'
  := by
  by_cases hns : ns = []
  · subst hns
    cases absolute with
    | false => exact absurd rfl h
    | true => rfl
  · have htext : (ofNames absolute (ns ++ [""])).text = (ofNames absolute ns).text ++ "/" := by
      simp [ofNames, String.intercalate_append_of_ne_nil hns, String.append_assoc]
    rw [htext]
    simp

/-- A name inside a directory is the last name of its path. -/
theorem exists_join_eq (hp : p.text ≠ "") (hname : '/' ∉ name.toList) :
  ∃ ns, p.join ⟨name⟩ = ofNames p.isAbsolute (ns ++ [name])
    ∧ (p.names = ns ∨ p.names = ns ++ [""])
  := by
  obtain ⟨front, last, hnames⟩ := (List.eq_nil_or_concat' p.names).resolve_left p.names_ne_nil
  have hsame : ofNames p.isAbsolute (front ++ [last]) = p := by rw [← hnames, ofNames_names]
  by_cases hlast : last = ""
  · subst hlast
    refine ⟨front, ?_, .inr hnames⟩
    have htext := text_ofNames_concat p.isAbsolute front name
    have hclosed := getLast?_text_ofNames p.isAbsolute front (by rwa [hsame])
    rw [hsame] at htext hclosed
    rw [join_of_closed hname hclosed, ← htext]
  · refine ⟨front ++ [last], ?_, .inl hnames⟩
    have hseparated : ∀ n ∈ front ++ [last], '/' ∉ n.toList := by
      intro n hn
      exact separator_not_mem (hnames ▸ hn)
    have hjoin : (ofNames p.isAbsolute (front ++ [last])).join ⟨name⟩
        = ofNames p.isAbsolute (front ++ [last] ++ [name]) :=
      join_ofNames hname hseparated (by simpa using hlast)
    rwa [hsame] at hjoin

/-! ### Parts -/

theorem dropFiller_suffix :
  dropFiller absolute ns <:+ ns
  := by
  induction ns with
  | nil => exact List.suffix_refl []
  | cons n ns ih =>
    rw [dropFiller]
    split
    · exact ih.trans (List.suffix_cons n ns)
    · exact List.suffix_refl _

/-- What is left after the fillers begins with a part. -/
theorem isFiller_of_dropFiller {n : String} {before : List String}
    (h : dropFiller absolute ns = n :: before) :
  isFiller absolute before n = false
  := by
  induction ns with
  | nil => simp [dropFiller] at h
  | cons m ms ih =>
    rw [dropFiller] at h
    split at h
    · exact ih h
    · next hm =>
      obtain ⟨rfl, rfl⟩ := List.cons.inj h
      simpa using hm

theorem mem_pathsOf {q : Path} (h : q ∈ pathsOf absolute ns) :
  ∃ n before, n :: before <:+ ns ∧ isFiller absolute before n = false
    ∧ q = ofNames absolute (n :: before).reverse
  := by
  induction ns with
  | nil => simp [pathsOf] at h
  | cons m ms ih =>
    have hinside (h : q ∈ pathsOf absolute ms) :
        ∃ n before, n :: before <:+ m :: ms ∧ isFiller absolute before n = false
          ∧ q = ofNames absolute (n :: before).reverse := by
      obtain ⟨n, before, hsuffix, hn, hq⟩ := ih h
      exact ⟨n, before, hsuffix.trans (List.suffix_cons m ms), hn, hq⟩
    rw [pathsOf] at h
    split at h
    · exact hinside h
    · next hm =>
      rcases List.mem_cons.mp h with hq | h
      · exact ⟨m, ms, List.suffix_refl _, by simpa using hm, hq⟩
      · exact hinside h

theorem ne_empty_of_part {n : String} {before : List String} (h : isFiller absolute before n = false) :
  n ≠ ""
  := by
  rintro rfl
  simp [isFiller] at h

/-- Up to a part that is not empty, a relative path does not start with an empty name. -/
theorem head_ne_empty {n : String} {before : List String} (hsuffix : n :: before <:+ p.names.reverse)
    (hn : n ≠ "") (hp : p.isAbsolute = false) :
  (n :: before).reverse.head? ≠ some ""
  := by
  intro hempty
  have hbegins : (n :: before).reverse <+: p.names := by
    simpa using List.reverse_prefix.mpr hsuffix
  have hnames : p.names = [""] := by
    apply names_of_head_empty hp
    obtain ⟨rest, hrest⟩ := hbegins
    rw [← hrest, List.head?_append, hempty]
    rfl
  have hmem : n ∈ p.names := hbegins.mem (by simp)
  rw [hnames, List.mem_singleton] at hmem
  exact hn hmem

theorem separator_not_mem_of_suffix (h : ns <:+ p.names.reverse) :
  ∀ n ∈ ns.reverse, '/' ∉ n.toList
  := by
  intro n hn
  apply separator_not_mem (p := p)
  simpa using h.mem (List.mem_reverse.mp hn)

/-- The names up to a part are those of the path that is put together of them. -/
theorem names_of_part {n : String} {before : List String}
    (hsuffix : n :: before <:+ p.names.reverse) (hn : isFiller p.isAbsolute before n = false) :
  (ofNames p.isAbsolute (n :: before).reverse).isAbsolute = p.isAbsolute
    ∧ (ofNames p.isAbsolute (n :: before).reverse).names = (n :: before).reverse
  := by
  have hsep := separator_not_mem_of_suffix hsuffix
  have hhead := head_ne_empty hsuffix (ne_empty_of_part hn)
  exact ⟨isAbsolute_ofNames hsep hhead, names_ofNames (by simp) hsep hhead⟩

theorem reversedNames_suffix (p : Path) :
  p.reversedNames <:+ p.names.reverse
  := dropFiller_suffix

/-- The names before the last part. -/
theorem before_suffix {n : String} {before : List String} (h : p.reversedNames = n :: before) :
  before <:+ p.names.reverse
  := (List.suffix_cons n before).trans (h ▸ reversedNames_suffix p)

theorem ancestors_ofNames_nil :
  (ofNames absolute []).ancestors = []
  := by
  cases absolute <;> decide

/-! ### The directories that a path lies in -/

/-- The directories that a path lies in, from the inside out. -/
def folders (p : Path) : List Path :=
  p.parent?.elim [] ancestors

theorem folders_of_parent? {folder : Path} (h : p.parent? = some folder) :
  p.folders = folder.ancestors
  := by
  rw [folders, h, Option.elim_some]

/-- The directories that a path lies in are put together of the names before its last part. -/
theorem exists_ofNames_of_mem_folders {q : Path} (hq : q ∈ p.folders) :
  ∃ n before m ms, p.reversedNames = n :: before ∧ m :: ms <:+ dropFiller p.isAbsolute before
    ∧ isFiller p.isAbsolute ms m = false ∧ q = ofNames p.isAbsolute (m :: ms).reverse
  := by
  cases hp : p.reversedNames with
  | nil => simp [folders, parent?, hp] at hq
  | cons n before =>
    rw [folders_of_parent? (by rw [parent?, hp])] at hq
    cases hdrop : dropFiller p.isAbsolute before with
    | nil =>
      rw [hdrop, List.reverse_nil, ancestors_ofNames_nil] at hq
      simp at hq
    | cons k ks =>
      rw [hdrop] at hq
      obtain ⟨habsolute, hnames⟩ := names_of_part ((hdrop ▸ dropFiller_suffix).trans (before_suffix hp))
        (isFiller_of_dropFiller hdrop)
      rw [ancestors, habsolute, hnames, List.reverse_reverse] at hq
      obtain ⟨m, ms, hms, hm, hq⟩ := mem_pathsOf hq
      exact ⟨n, before, m, ms, rfl, hdrop ▸ hms, hm, hq⟩

/-- The directories that a path lies in are named by a beginning of the names before its
last part. -/
theorem names_of_mem_folders {q : Path} (hq : q ∈ p.folders) :
  ∃ n before, p.reversedNames = n :: before ∧ q.names <+: before.reverse
  := by
  obtain ⟨n, before, m, ms, hp, hms, hm, rfl⟩ := exists_ofNames_of_mem_folders hq
  have hsuffix := hms.trans dropFiller_suffix
  refine ⟨n, before, hp, ?_⟩
  rw [(names_of_part (hsuffix.trans (before_suffix hp)) hm).2]
  exact List.reverse_prefix.mpr hsuffix

theorem text_ne_empty_of_mem_folders {q : Path} (hq : q ∈ p.folders) :
  q.text ≠ ""
  := by
  obtain ⟨_, _, m, ms, -, -, hm, rfl⟩ := exists_ofNames_of_mem_folders hq
  obtain ⟨front, hfront⟩ := exists_text_ofNames p.isAbsolute ms.reverse m
  rw [List.reverse_cons, hfront]
  simp [ne_empty_of_part hm]

/-! ### Temporary paths -/

/-- The temporary path is put together of the names before the last part and a longer name. -/
theorem temporary_eq_ofNames {name : String} {before : List String}
    (hp : p.reversedNames = name :: before) (hdots : name ≠ "." ∧ name ≠ "..") :
  p.temporary = ofNames p.isAbsolute
    ((dropFiller p.isAbsolute before).reverse ++ [name ++ ".tmp"])
  := by
  have hsuffix : name :: before <:+ p.names.reverse := hp ▸ reversedNames_suffix p
  have hdrop : dropFiller p.isAbsolute before <:+ p.names.reverse :=
    dropFiller_suffix.trans ((List.suffix_cons name before).trans hsuffix)
  have hname : '/' ∉ (name ++ ".tmp").toList := by
    have hfree := separator_not_mem_of_suffix hsuffix name (by simp)
    simpa using hfree
  have hfile : p.fileName? = some name := by simp [fileName?, hp, hdots]
  have hfolder : p.parent? = some (ofNames p.isAbsolute (dropFiller p.isAbsolute before).reverse) := by
    simp [parent?, hp]
  have hlast : (dropFiller p.isAbsolute before).reverse.getLast? ≠ some "" := by
    cases hparts : dropFiller p.isAbsolute before with
    | nil => simp
    | cons m ms => simpa using ne_empty_of_part (isFiller_of_dropFiller hparts)
  simp only [temporary, withFileName, hfile, hfolder, Option.isSome_some, if_true,
    Option.getD_some]
  exact join_ofNames hname (separator_not_mem_of_suffix hdrop) hlast

/-- The temporary path leads through the directory of the last part, to a longer name. -/
theorem names_temporary {name : String} {before : List String}
    (hp : p.reversedNames = name :: before) (hdots : name ≠ "." ∧ name ≠ "..") :
  p.temporary.names = (dropFiller p.isAbsolute before).reverse ++ [name ++ ".tmp"]
  := by
  have hsuffix : name :: before <:+ p.names.reverse := hp ▸ reversedNames_suffix p
  have hdrop : dropFiller p.isAbsolute before <:+ p.names.reverse :=
    dropFiller_suffix.trans ((List.suffix_cons name before).trans hsuffix)
  rw [temporary_eq_ofNames hp hdots]
  apply names_ofNames (by simp)
  · intro n hn
    rcases List.mem_append.mp hn with hn | hn
    · exact separator_not_mem_of_suffix hdrop n hn
    · rw [List.mem_singleton.mp hn]
      have hfree := separator_not_mem_of_suffix hsuffix name (by simp)
      simpa using hfree
  · intro hrelative
    cases hparts : dropFiller p.isAbsolute before with
    | nil => simp [String.append_eq_empty_iff]
    | cons m ms =>
      have hhead := head_ne_empty (hparts ▸ hdrop)
        (ne_empty_of_part (isFiller_of_dropFiller hparts)) hrelative
      rw [List.head?_append_of_ne_nil _ (by simp)]
      exact hhead

/-- A path that leads on from another begins with its text. -/
theorem exists_text_append {ms : List String} (hns : ns ≠ []) :
  ∃ rest, (ofNames absolute (ns ++ ms)).text = (ofNames absolute ns).text ++ rest
  := by
  by_cases hms : ms = []
  · exact ⟨"", by simp [hms]⟩
  · refine ⟨"/" ++ String.intercalate "/" ms, ?_⟩
    simp only [ofNames, String.intercalate_append_of_ne_nil hns hms, String.append_assoc]

/-- The temporary path begins with the text of each directory that the path lies in. -/
theorem exists_temporary_text (hp : p.fileName?.isSome = true) {q : Path} (hq : q ∈ p.folders) :
  ∃ rest, p.temporary.text = q.text ++ rest
  := by
  obtain ⟨name, before, m, ms, hnames, ⟨more, hms⟩, -, rfl⟩ := exists_ofNames_of_mem_folders hq
  have hdots : name ≠ "." ∧ name ≠ ".." := by simpa [fileName?, hnames] using hp
  rw [temporary_eq_ofNames hnames hdots, ← hms, List.reverse_append, List.append_assoc]
  exact exists_text_append (by simp)

end CorpusAudit.Path
