import CorpusAudit.Storage.Path
import CorpusAudit.Text.Bytes

/-!
# File trees

A `Tree` holds what there is below a directory: files with their bytes, and directories.
A place in the tree is a `Location`, the names that lead to it from the top.  A path is
followed name by name (`place`), and the operations on files act at the place it leads
to, or fail for a `FileFault` and leave the tree alone.
-/

namespace CorpusAudit

/-- Why an operation on a file failed. -/
inductive FileFault where
  | notFound
  | exists
  | notDirectory
  | isDirectory
  | busy
  | nameTooLong
  /-- The path has a character that no name has. -/
  | invalidPath
  | invalidText
  | other (message : String)
deriving DecidableEq, Repr

/-- What is said of a failure. -/
def FileFault.message : FileFault → String
  | .notFound => "No such file or directory (os error 2)"
  | .exists => "File exists (os error 17)"
  | .notDirectory => "Not a directory (os error 20)"
  | .isDirectory => "Is a directory (os error 21)"
  | .busy => "Device or resource busy (os error 16)"
  | .nameTooLong => "File name too long (os error 36)"
  | .invalidPath => "file name contained an unexpected NUL byte"
  | .invalidText => "stream did not contain valid UTF-8"
  | .other message => message

/-- The names that lead to a place from the top of a tree. -/
abbrev Location := List String

/-- What there is at a place. -/
inductive Node where
  | file (content : Bytes)
  | directory
deriving DecidableEq, Repr

/-- Files and directories below a top directory. -/
structure Tree where
  entries : List (Location × Node)
deriving DecidableEq, Repr, Inhabited

namespace Tree

/-- The tree without files and directories. -/
def empty : Tree :=
  ⟨[]⟩

/-- What there is at a place; the top is a directory. -/
def node? (t : Tree) : Location → Option Node
  | [] => some .directory
  | l => (t.entries.find? (·.1 = l)).map (·.2)

/-- The tree without what is at a place. -/
def erase (t : Tree) (l : Location) : Tree :=
  ⟨t.entries.filter (·.1 ≠ l)⟩

/-- The tree with a node put at a place. -/
def put (t : Tree) (l : Location) (n : Node) : Tree :=
  ⟨(t.erase l).entries ++ [(l, n)]⟩

theorem find?_filter_ne {es : List (Location × Node)} {k l : Location} (h : k ≠ l) :
  (es.filter (·.1 ≠ l)).find? (·.1 = k) = es.find? (·.1 = k)
  := by
  induction es with
  | nil => rfl
  | cons e es ih =>
    by_cases he : e.1 = l
    · have hk : ¬ e.1 = k := by
        intro hk
        exact h (hk.symm.trans he)
      simp [he, ← ih, Ne.symm h]
    · by_cases hk : e.1 = k
      · simp [hk, h]
      · simpa [List.find?_cons, he, hk] using ih

theorem node?_erase_ne (t : Tree) {k l : Location} (h : k ≠ l) :
  (t.erase l).node? k = t.node? k
  := by
  cases k with
  | nil => rfl
  | cons a k => exact congrArg (Option.map (·.2)) (find?_filter_ne h)

theorem node?_erase_self (t : Tree) {l : Location} (h : l ≠ []) :
  (t.erase l).node? l = none
  := by
  cases l with
  | nil => exact absurd rfl h
  | cons a l =>
    simp only [node?, erase, Option.map_eq_none_iff, List.find?_eq_none]
    intro e he
    simpa using (List.mem_filter.mp he).2

theorem node?_put_ne (t : Tree) (n : Node) {k l : Location} (h : k ≠ l) :
  (t.put l n).node? k = t.node? k
  := by
  rw [← node?_erase_ne t h]
  cases k with
  | nil => rfl
  | cons a k => simp [node?, put, List.find?_append, Ne.symm h]

theorem node?_put_self (t : Tree) (n : Node) {l : Location} (h : l ≠ []) :
  (t.put l n).node? l = some n
  := by
  have he := node?_erase_self t h
  cases l with
  | nil => exact absurd rfl h
  | cons a l =>
    simp only [node?, Option.map_eq_none_iff] at he
    simp [node?, put, List.find?_append, he]

/-! ### Following paths -/

/-- How many bytes a name may have. -/
def longestName : Nat := 255

/-- How many bytes a path may have. -/
def longestPath : Nat := 4095

/-- The directory that a name leads to from a directory. -/
def enter (t : Tree) (l : Location) (name : String) : Except FileFault Location :=
  if name = "" || name = "." then .ok l
  else if name = ".." then .ok l.dropLast
  else if longestName < name.utf8ByteSize then .error .nameTooLong
  else match t.node? (l ++ [name]) with
    | none => .error .notFound
    | some (.file _) => .error .notDirectory
    | some .directory => .ok (l ++ [name])

/-- Where a path leads. -/
inductive Place where
  /-- A directory that is there, named by a path without a last name of its own. -/
  | top (l : Location)
  /-- A name in a directory that is there; `closed` says that a separator follows the
  name, which only a directory may have. -/
  | entry (folder : Location) (name : String) (closed : Bool)
deriving DecidableEq, Repr

/-- The place that a path leads to from the top. -/
def place (t : Tree) (p : Path) : Except FileFault Place :=
  if p.text.toList.contains '\x00' then .error .invalidPath
  else if p.text = "" then .error .notFound
  else if longestPath < p.text.utf8ByteSize then .error .nameTooLong
  else
    let given := p.names.reverse
    match given.dropWhile (· = "") with
    | [] => .ok (.top [])
    | name :: before => do
      let l ← before.reverse.foldlM t.enter []
      if name = "." || name = ".." then do
        let l ← t.enter l name
        .ok (.top l)
      else if longestName < name.utf8ByteSize then .error .nameTooLong
      else .ok (.entry l name (given.head? = some ""))

/-- What a path leads to. -/
def resolve (t : Tree) (p : Path) : Except FileFault (Location × Node) := do
  match ← t.place p with
  | .top l => .ok (l, .directory)
  | .entry folder name closed =>
    match t.node? (folder ++ [name]) with
    | none => .error .notFound
    | some (.file c) => if closed then .error .notDirectory else .ok (folder ++ [name], .file c)
    | some .directory => .ok (folder ++ [name], .directory)

/-! ### Operations on files -/

/-- The bytes of a file. -/
def read (t : Tree) (p : Path) : Except FileFault Bytes := do
  match ← t.resolve p with
  | (_, .file c) => .ok c
  | (_, .directory) => .error .isDirectory

/-- Whether a path leads to something. -/
def isPresent (t : Tree) (p : Path) : Bool :=
  match t.resolve p with
  | .ok _ => true
  | .error _ => false

/-- Whether a path leads to a directory. -/
def isDirectory (t : Tree) (p : Path) : Bool :=
  match t.resolve p with
  | .ok (_, .directory) => true
  | _ => false

/-- The names of what is directly inside a directory. -/
def list (t : Tree) (p : Path) : Except FileFault (List String) := do
  match ← t.resolve p with
  | (_, .file _) => .error .notDirectory
  | (l, .directory) => .ok ((t.entries.filter fun e => e.1.dropLast = l && e.1 ≠ []).filterMap (·.1.getLast?))

/-- Make a directory where nothing is. -/
def createDirectory (t : Tree) (p : Path) : Except FileFault Tree := do
  match ← t.place p with
  | .top _ => .error .exists
  | .entry folder name _ =>
    match t.node? (folder ++ [name]) with
    | some _ => .error .exists
    | none => .ok (t.put (folder ++ [name]) .directory)

/-- Make a file with the given bytes, or replace the bytes of a file. -/
def write (t : Tree) (p : Path) (content : Bytes) : Except FileFault Tree := do
  match ← t.place p with
  | .top _ => .error .isDirectory
  | .entry folder name closed =>
    if closed || t.node? (folder ++ [name]) = some .directory then .error .isDirectory
    else .ok (t.put (folder ++ [name]) (.file content))

/-- Remove a file. -/
def remove (t : Tree) (p : Path) : Except FileFault Tree := do
  match ← t.resolve p with
  | (_, .directory) => .error .isDirectory
  | (l, .file _) => .ok (t.erase l)

/-- Move a file, over a file that may be at its new place. -/
def move (t : Tree) (source target : Path) : Except FileFault Tree := do
  let origin ← t.place source
  let goal ← t.place target
  match origin, goal with
  | .entry folder name closed, .entry folder' name' closed' =>
    match t.node? (folder ++ [name]) with
    | none => .error .notFound
    | some .directory => .error .isDirectory
    | some (.file c) =>
      if closed || closed' then .error .notDirectory
      else if t.node? (folder' ++ [name']) = some .directory then .error .isDirectory
      else .ok ((t.erase (folder ++ [name])).put (folder' ++ [name']) (.file c))
  | _, _ => .error .busy

end Tree

end CorpusAudit
