import CorpusAudit.Toml.Item
import CorpusAudit.Toml.Scalar

/-!
# Reading TOML

`read?` reads a whole document, version 1.0 of the language.  A document is a sequence of
lines, each of which may end in a comment: headers, and keys with their values.  Lists
may go over several lines, tables between braces stay on one.
-/

namespace CorpusAudit.Toml

open Text (Reader)

/-- How many lists and tables may be nested, and how many keys a dotted key may have. -/
def maxDepth : Nat := 79

/-! ### Keys -/

/-- A character of a key without quotes. -/
def isBare (c : Char) : Bool :=
  Decimal.isDigit c || 'a' ≤ c && c ≤ 'z' || 'A' ≤ c && c ≤ 'Z' || c = '-' || c = '_'

/-- A key between two dots. -/
def simpleKey : Reader String := fun cs =>
  match lineText cs with
  | some found => some found
  | none =>
    let name := cs.takeWhile isBare
    if name.isEmpty then none else some (String.ofList name, cs.dropWhile isBare)

/-- A dotted key of at most `most` keys with the spaces around it: the keys before the
last one, and the last one. -/
def dottedKey : Nat → Reader (List String × String)
  | 0, _ => none
  | most + 1, cs => do
    let (k, rest) ← simpleKey (skipSpace cs)
    match skipSpace rest with
    | '.' :: rest => do
      let ((path, last), rest) ← dottedKey most rest
      some ((k :: path, last), rest)
    | rest => some (([], k), rest)

/-- A key, dotted or not. -/
def key : Reader (List String × String) :=
  dottedKey maxDepth

/-! ### Values -/

/-- The characters after a comment, if there is one. -/
def skipComment : List Char → List Char
  | '#' :: rest => rest.dropWhile isPlain
  | cs => cs

/-- The characters from the first that is neither a space, nor part of a comment, nor the
end of a line. -/
def skipBlank : Nat → List Char → List Char
  | 0, cs => cs
  | fuel + 1, cs =>
    let cs := skipSpace cs
    match cs with
    | '#' :: _ => match newline (skipComment cs) with
      | some (_, rest) => skipBlank fuel rest
      | none => cs
    | _ => match newline cs with
      | some (_, rest) => skipBlank fuel rest
      | none => cs

/-- The items of a list, up to its closing bracket.  A comma may follow the last item. -/
def listItems (value : Reader Value) : Nat → Reader (List Value)
  | 0, _ => none
  | fuel + 1, cs =>
    match skipBlank cs.length cs with
    | ']' :: rest => some ([], rest)
    | cs => do
      let (v, rest) ← value cs
      match skipBlank rest.length rest with
      | ',' :: rest => do
        let (vs, rest) ← listItems value fuel rest
        some (v :: vs, rest)
      | ']' :: rest => some ([v], rest)
      | _ => none

/-- A key, an equals sign, and the characters from the value on. -/
def keyAndEquals : Reader (List String × String) := fun cs => do
  let (k, rest) ← key cs
  let (_, rest) ← Text.character '=' rest
  some (k, skipSpace rest)

/-- The fields of a table between braces, up to the closing brace. -/
def inlineFields (value : Reader Value) : Nat → Items → Reader Items
  | 0, _, _ => none
  | fuel + 1, items, cs => do
    let ((path, k), rest) ← keyAndEquals cs
    let (v, rest) ← value rest
    let items ← items.assign path k v .header
    match skipSpace rest with
    | ',' :: rest => inlineFields value fuel items rest
    | '}' :: rest => some (items, rest)
    | _ => none

/-- A table between braces, after the opening brace. -/
def inlineTable (value : Reader Value) : Reader Value := fun cs =>
  match skipSpace cs with
  | '}' :: rest => some (.record [], rest)
  | cs => do
    let (items, rest) ← inlineFields value (cs.length + 1) [] cs
    some (.record (fieldsOf items), rest)

/-- A value with at most `depth` lists and tables inside each other. -/
def value : Nat → Reader Value
  | 0, cs => scalar cs
  | depth + 1, cs =>
    match cs with
    | '[' :: rest => do
      let (items, rest) ← listItems (value depth) (rest.length + 1) rest
      some (.list items, rest)
    | '{' :: rest => inlineTable (value depth) rest
    | cs => scalar cs

/-! ### Documents -/

/-- The rest of a line: spaces, perhaps a comment, and the end of the line or of the
document. -/
def lineEnd : Reader Unit := fun cs =>
  match skipComment (skipSpace cs) with
  | [] => some ((), [])
  | cs => newline cs

/-- What has been read of a document: its items, and the header of the table to which the
next lines belong. -/
structure Progress where
  items : Items
  path : List String
deriving Repr, Inhabited

/-- The header of a list of tables, after its opening brackets. -/
def elementHeader (items : Items) : Reader Progress := fun cs => do
  let ((path, k), rest) ← key cs
  match rest with
  | ']' :: ']' :: rest => do
    let items ← items.openElement path k
    some (⟨items, path ++ [k]⟩, rest)
  | _ => none

/-- The header of a table, after its opening bracket. -/
def tableHeader (items : Items) : Reader Progress := fun cs => do
  let ((path, k), rest) ← key cs
  match rest with
  | ']' :: rest => do
    let items ← items.openTable path k
    some (⟨items, path ++ [k]⟩, rest)
  | _ => none

/-- A line with a key and its value. -/
def assignment (p : Progress) : Reader Progress := fun cs => do
  let ((path, k), rest) ← keyAndEquals cs
  let (v, rest) ← value maxDepth rest
  let items ← Items.modify false (fun _ items => items.assign path k v .header) p.path .header p.items
  some ({ p with items }, rest)

/-- What stands on a line, from its first character that is no space. -/
def line (p : Progress) : Reader Progress
  | '[' :: '[' :: rest => elementHeader p.items rest
  | '[' :: rest => tableHeader p.items rest
  | cs => assignment p cs

/-- The items of a document, line by line. -/
def lines : Nat → Progress → List Char → Option Items
  | 0, _, _ => none
  | fuel + 1, p, cs =>
    match skipBlank cs.length cs with
    | [] => some p.items
    | '#' :: rest => if (rest.dropWhile isPlain).isEmpty then some p.items else none
    | cs => do
      let (p, rest) ← line p cs
      let (_, rest) ← lineEnd rest
      lines fuel p rest

/-- The document that a text is, if it is one.  A byte order mark at its start is no part
of it. -/
def read? (cs : List Char) : Option Value := do
  let cs := match cs with
    | '\uFEFF' :: cs => cs
    | cs => cs
  let items ← lines (cs.length + 1) ⟨[], []⟩ cs
  some (.record (fieldsOf items))

/-- The document that a string is, if it is one. -/
def parse? (s : String) : Option Value :=
  read? s.toList

end CorpusAudit.Toml
