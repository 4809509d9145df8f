/-!
# Readers

A `Reader` reads something at the front of a text, given as the list of its characters; a
`ReaderOf σ` does so in a list of any other kind.
-/

namespace CorpusAudit.Text

/-- What was read and what follows it; none if it is not there. -/
abbrev ReaderOf (σ α : Type) := List σ → Option (α × List σ)

/-- What was read and the characters after it; none if it is not there. -/
abbrev Reader (α : Type) := ReaderOf Char α

/-- One given character. -/
def character (c : Char) : Reader Unit
  | [] => none
  | d :: rest => if d = c then some ((), rest) else none

end CorpusAudit.Text
