/-!
# Laying out text

Columns of the printed tables are padded with spaces to a number of characters; a text
that is already wider is left as it is.
-/

namespace CorpusAudit.Text

/-- `s` at the left of a column of `width` characters. -/
def padRight (width : Nat) (s : String) : String :=
  s ++ String.ofList (List.replicate (width - s.length) ' ')

/-- `s` at the right of a column of `width` characters. -/
def padLeft (width : Nat) (s : String) : String :=
  String.ofList (List.replicate (width - s.length) ' ') ++ s

/-- A padded text is as wide as its column, or as itself if that is more. -/
theorem length_padRight (width : Nat) (s : String) :
  (padRight width s).length = max width s.length
  := by
  simp only [padRight, String.length_append, String.length_ofList, List.length_replicate]
  omega

theorem length_padLeft (width : Nat) (s : String) :
  (padLeft width s).length = max width s.length
  := by
  simp only [padLeft, String.length_append, String.length_ofList, List.length_replicate]
  omega

/-- A rule of `width` copies of `c`. -/
def rule (c : Char) (width : Nat) : String :=
  String.ofList (List.replicate width c)

/-- A natural number in decimal digits, with zeros in front up to `width` digits. -/
def padZeros (width n : Nat) : String :=
  let digits := toString n
  String.ofList (List.replicate (width - digits.length) '0') ++ digits

/-- An integer with its sign, plus included. -/
def signed (n : Int) : String :=
  (if n < 0 then "-" else "+") ++ toString n.natAbs

/-- The lines of a text, each ended by a line feed. -/
def unlines (ls : List String) : String :=
  String.join (ls.map (· ++ "\n"))

end CorpusAudit.Text
