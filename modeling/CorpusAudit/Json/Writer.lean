import CorpusAudit.Decimal.Shortest
import CorpusAudit.Value

/-!
# Writing JSON

`compact` writes a document on one line without blanks, `pretty` with an indentation of
two spaces a level, both as lists of characters; `render` is the pretty text of an
artifact, ended by a line feed.  Inside quotes only the quote, the backslash and the
control characters below U+0020 are escaped, so no line feed ever stands inside a
compact document.  Numbers that are not finite, and parts that denote no value, are
written as null.
-/

namespace CorpusAudit.Json

/-- The digit of a value below sixteen, in lower case. -/
def hexDigit (n : Nat) : Char :=
  Nat.digitChar n

/-- A character as it stands between quotes. -/
def escape (c : Char) : List Char :=
  if c = '"' then ['\\', '"']
  else if c = '\\' then ['\\', '\\']
  else if c = '\n' then ['\\', 'n']
  else if c = '\r' then ['\\', 'r']
  else if c = '\t' then ['\\', 't']
  else if c = '\x08' then ['\\', 'b']
  else if c = '\x0c' then ['\\', 'f']
  else if c.toNat < 0x20 then
    ['\\', 'u', '0', '0', hexDigit (c.toNat / 16), hexDigit (c.toNat % 16)]
  else [c]

/-- A text in quotes. -/
def quote (s : String) : List Char :=
  '"' :: s.toList.flatMap escape ++ ['"']

/-- An integer in decimal digits. -/
def intText (n : Int) : List Char :=
  if n < 0 then '-' :: Nat.toDigits 10 n.natAbs else Nat.toDigits 10 n.natAbs

/-- A number, or null if it is not finite. -/
def floatText (x : Float) : List Char :=
  if x.isFinite then (Decimal.data x).toList else ['n', 'u', 'l', 'l']

mutual

/-- A document on one line without blanks. -/
def compact : Value → List Char
  | .null => ['n', 'u', 'l', 'l']
  | .bool true => ['t', 'r', 'u', 'e']
  | .bool false => ['f', 'a', 'l', 's', 'e']
  | .int n => intText n
  | .float x => floatText x
  | .text s => quote s
  | .unreadable => ['n', 'u', 'l', 'l']
  | .list [] => ['[', ']']
  | .list (v :: vs) => '[' :: compact v ++ compactItems vs
  | .record [] => ['{', '}']
  | .record ((n, v) :: fs) => '{' :: quote n ++ ':' :: compact v ++ compactFields fs
termination_by structural v => v

/-- The items of a list after the first, and its closing bracket. -/
def compactItems : List Value → List Char
  | [] => [']']
  | v :: vs => ',' :: compact v ++ compactItems vs
termination_by structural vs => vs

/-- The fields of a record after the first, and its closing brace. -/
def compactFields : List (String × Value) → List Char
  | [] => ['}']
  | (n, v) :: fs => ',' :: quote n ++ ':' :: compact v ++ compactFields fs
termination_by structural fs => fs

end

/-- A line feed and the indentation of a level. -/
def newline (level : Nat) : List Char :=
  '\n' :: List.replicate (2 * level) ' '

mutual

/-- A document with one item or field to a line, `level` levels deep. -/
def pretty (level : Nat) : Value → List Char
  | .list [] => ['[', ']']
  | .list (v :: vs) =>
    '[' :: newline (level + 1) ++ pretty (level + 1) v ++ prettyItems level vs
  | .record [] => ['{', '}']
  | .record ((n, v) :: fs) =>
    '{' :: newline (level + 1) ++ quote n ++ ':' :: ' ' :: pretty (level + 1) v
      ++ prettyFields level fs
  | .null => ['n', 'u', 'l', 'l']
  | .bool true => ['t', 'r', 'u', 'e']
  | .bool false => ['f', 'a', 'l', 's', 'e']
  | .int n => intText n
  | .float x => floatText x
  | .text s => quote s
  | .unreadable => ['n', 'u', 'l', 'l']
termination_by structural v => v

/-- The items of a list after the first, each on its line, and the closing bracket. -/
def prettyItems (level : Nat) : List Value → List Char
  | [] => newline level ++ [']']
  | v :: vs => ',' :: newline (level + 1) ++ pretty (level + 1) v ++ prettyItems level vs
termination_by structural vs => vs

/-- The fields of a record after the first, each on its line, and the closing brace. -/
def prettyFields (level : Nat) : List (String × Value) → List Char
  | [] => newline level ++ ['}']
  | (n, v) :: fs =>
    ',' :: newline (level + 1) ++ quote n ++ ':' :: ' ' :: pretty (level + 1) v
      ++ prettyFields level fs
termination_by structural fs => fs

end

/-- The pretty text of a document. -/
def prettyText (v : Value) : String :=
  String.ofList (pretty 0 v)

/-- The compact text of a document. -/
def compactText (v : Value) : String :=
  String.ofList (compact v)

/-- An artifact: the pretty text of a document, ended by a line feed. -/
def render (v : Value) : String :=
  String.ofList (pretty 0 v ++ ['\n'])

end CorpusAudit.Json
