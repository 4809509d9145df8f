/-!
# Paths

A `Path` is the text by which a file is named.  Its `parts` are the names between the
separators; repeated separators, and dots other than a leading one, are no parts.  The
functions of this module look at the text alone: what a path leads to is a matter of
the tree in which it is followed.  A search follows the names of a path one after the
other, and tells what it finds by the path it went (`searched?`).
-/

namespace CorpusAudit

/-- The text by which a file or directory is named. -/
structure Path where
  text : String
deriving DecidableEq, Repr, Inhabited

namespace Path

/-- Whether the path starts at the root. -/
def isAbsolute (p : Path) : Bool :=
  p.text.toList.head? = some '/'

/-- The names between the separators, empty names included, without the separator at
which an absolute path starts. -/
def names (p : Path) : List String :=
  let cs := if p.isAbsolute then p.text.toList.drop 1 else p.text.toList
  (cs.splitOn '/').map String.ofList

/-- The path with the given names. -/
def ofNames (absolute : Bool) (ns : List String) : Path :=
  ⟨(if absolute then "/" else "") ++ String.intercalate "/" ns⟩

/-- Whether the name at the end of a path is no part of it: an empty name, or a dot that
is not the whole of a relative path. -/
def isFiller (absolute : Bool) (before : List String) (name : String) : Bool :=
  name = "" || name = "." && (absolute || !before.isEmpty)

/-- Drop from reversed names, last one first, those that are no parts. -/
def dropFiller (absolute : Bool) : List String → List String
  | [] => []
  | n :: ns => if isFiller absolute ns n then dropFiller absolute ns else n :: ns

/-- The names up to the last part, last one first. -/
def reversedNames (p : Path) : List String :=
  dropFiller p.isAbsolute p.names.reverse

/-- The path of the directory that holds the last part; none if there is no part. -/
def parent? (p : Path) : Option Path :=
  match p.reversedNames with
  | [] => none
  | _ :: ns => some (ofNames p.isAbsolute (dropFiller p.isAbsolute ns).reverse)

/-- The paths with reversed names that end in a part, from the longest to the shortest. -/
def pathsOf (absolute : Bool) : List String → List Path
  | [] => []
  | n :: ns =>
    if isFiller absolute ns n then pathsOf absolute ns
    else ofNames absolute (n :: ns).reverse :: pathsOf absolute ns

/-- The path up to the last part, and the paths of the directories it lies in, from the
inside out. -/
def ancestors (p : Path) : List Path :=
  pathsOf p.isAbsolute p.names.reverse

/-- The last part, unless it stands for a directory by its place: `.` or `..`. -/
def fileName? (p : Path) : Option String :=
  match p.reversedNames with
  | [] => none
  | n :: _ => if n = "." || n = ".." then none else some n

/-- The path inside the directory `p` by which `q` leads; an absolute `q` leads from the
root. -/
def join (p q : Path) : Path :=
  if q.isAbsolute then q
  else if p.text = "" || p.text.toList.getLast? = some '/' then ⟨p.text ++ q.text⟩
  else ⟨p.text ++ "/" ++ q.text⟩

/-- The path of a file beside `p`. -/
def withFileName (p : Path) (name : String) : Path :=
  let folder := if p.fileName?.isSome then p.parent?.getD ⟨""⟩ else p
  folder.join ⟨name⟩

/-- What follows the last dot of the file name, if there is something before the dot. -/
def extension? (p : Path) : Option String := do
  let name ← p.fileName?
  let parts := name.toList.splitOn '.'
  if parts.length < 2 then none
  else if parts.dropLast = [[]] then none
  else parts.getLast?.map String.ofList

/-! ### Searching -/

/-- The path by which a search goes on from the directory `p` to a name in it.  Names in
the directory where a search starts stand alone, and an empty one leads nowhere. -/
def descend (p : Path) (name : String) : Option Path :=
  if p.text = "." then if name = "" then none else some ⟨name⟩
  else some (p.join ⟨name⟩)

/-- Where a search starts. -/
def origin (p : Path) : Path :=
  if p.isAbsolute then ⟨"/"⟩ else ⟨"."⟩

/-- The path by which a search comes to the directory `p`, name by name; none if an empty
name follows at once after the start of a relative path. -/
def searched? (p : Path) : Option Path :=
  p.names.foldlM descend p.origin

end Path

end CorpusAudit
