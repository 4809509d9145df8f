/-!
# Searching text

A text is searched as the list of its characters.  `occursIn p s` says that `p`
stands somewhere in `s` as a contiguous piece, and `lines s` are the lines of `s`.
The main statement is that `occursIn` is the infix relation.
-/

namespace CorpusAudit.Text

/-- Whether `p` stands in `s` as a contiguous piece. -/
def occursIn (p : List Char) : List Char → Bool
  | [] => p.isEmpty
  | c :: s => p.isPrefixOf (c :: s) || occursIn p s

theorem occursIn_iff {p s : List Char} :
  occursIn p s = true ↔ p <:+: s
  := by
  induction s with
  | nil => simp [occursIn]
  | cons c s ih => simp [occursIn, ih, List.infix_cons_iff]

/-- A line without the carriage return that ends it. -/
def dropReturn (l : List Char) : List Char :=
  if l.getLast? = some '\r' then l.dropLast else l

/-- The lines of a text: it is cut at every line feed, and a carriage return just
before a line feed goes with it.  A text that ends in a line feed has a last line that
is empty. -/
def lines (s : List Char) : List (List Char) :=
  let parts := s.splitOn '\n'
  parts.dropLast.map dropReturn ++ parts.getLast?.toList

end CorpusAudit.Text
