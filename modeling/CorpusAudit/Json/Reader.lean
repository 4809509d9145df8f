import CorpusAudit.Json.Number
import CorpusAudit.Text.Bytes
import CorpusAudit.Text.Reader

/-!
# Reading JSON

`read?` reads a whole document from its symbols.  The grammar is the strict one: blank
characters are space, tab, line feed and carriage return, nothing but blanks may follow
the document, and control characters are refused in texts.  A document that is written by
this grammar may still have parts that denote no value: texts that are damaged or hold
half of a surrogate pair, numbers out of range, and lists and records that are nested
deeper than 127.  Such parts are unreadable.  Each reader takes the symbols that are left
and returns what it read with the rest.
-/

namespace CorpusAudit.Json

open Text (Symbol)

/-- What was read and the symbols after it; none if it is not there. -/
abbrev Reader (α : Type) := Text.ReaderOf Symbol α

/-- The blank characters between the parts of a document. -/
def isBlank : Symbol → Bool
  | some c => c = ' ' || c = '\t' || c = '\n' || c = '\r'
  | none => false

/-- The symbols from the first that is not blank. -/
def skipBlank (cs : List Symbol) : List Symbol :=
  cs.dropWhile isBlank

/-! ### Texts -/

/-- The symbols up to the closing quote of a text, escapes as they are written, and the
symbols after the quote. -/
def untilQuote : Reader (List Symbol)
  | [] => none
  | c :: rest =>
    if c = some '"' then some ([], rest)
    else if c = some '\\' then match rest with
      | [] => none
      | d :: rest => do
        let (cs, rest) ← untilQuote rest
        some (c :: d :: cs, rest)
    else do
      let (cs, rest) ← untilQuote rest
      some (c :: cs, rest)

/-- The value of a hexadecimal digit in either case. -/
def hexValue? (c : Char) : Option Nat :=
  if Decimal.isDigit c || 'a' ≤ c && c ≤ 'f' || 'A' ≤ c && c ≤ 'F' then some (Decimal.digitValue c)
  else none

/-- The 16-bit unit written with four hexadecimal digits. -/
def unit? (digits : List Symbol) : Option Nat := do
  let cs ← digits.mapM id
  let values ← cs.mapM hexValue?
  some (values.foldl (fun n d => n * 16 + d) 0)

/-- The character for which a letter stands behind a backslash. -/
def escapedAs? : Char → Option Char
  | '"' => some '"'
  | '\\' => some '\\'
  | '/' => some '/'
  | 'b' => some '\x08'
  | 'f' => some '\x0c'
  | 'n' => some '\n'
  | 'r' => some '\r'
  | 't' => some '\t'
  | _ => none

/-- A character that has to be escaped in a text. -/
def isControl : Symbol → Bool
  | some c => c.toNat < 0x20
  | none => false

/-- A part of a text: a symbol, or a 16-bit unit that was written by its number. -/
inductive Mark where
  | symbol (c : Symbol)
  | unit (n : Nat)
deriving DecidableEq, Repr

/-- The marks of a text, its escapes being read. -/
def marks? : List Symbol → Option (List Mark)
  | [] => some []
  | c :: rest =>
    if c = some '\\' then match rest with
      | some 'u' :: a :: b :: c :: d :: rest => do
        let n ← unit? [a, b, c, d]
        let more ← marks? rest
        some (.unit n :: more)
      | some c :: rest => do
        let c ← escapedAs? c
        let more ← marks? rest
        some (.symbol (some c) :: more)
      | _ => none
    else if isControl c then none
    else do
      let more ← marks? rest
      some (.symbol c :: more)

/-- Whether two units make one character. -/
def isPair (high low : Nat) : Bool :=
  0xD800 ≤ high && high ≤ 0xDBFF && 0xDC00 ≤ low && low ≤ 0xDFFF

/-- The character of a pair of units. -/
def pairCharacter (high low : Nat) : Char :=
  Char.ofNat (0x10000 + (high - 0xD800) * 0x400 + (low - 0xDC00))

/-- The symbol of a unit by itself; half of a pair is no character. -/
def unitSymbol (n : Nat) : Symbol :=
  if n < 0xD800 || 0xDFFF < n then some (Char.ofNat n) else none

/-- The unit at the front that makes one character with the unit before it. -/
def partner? (high : Nat) : List Mark → Option Nat
  | .unit low :: _ => if isPair high low then some low else none
  | _ => none

/-- The symbols of marks, units that make one character being put together.  The second
unit of a pair is never the first of another one, so the symbol that it is by itself is
the next. -/
def join : List Mark → List Symbol
  | [] => []
  | .symbol c :: rest => c :: join rest
  | .unit n :: rest => match partner? n rest with
    | some low => some (pairCharacter n low) :: (join rest).tail
    | none => unitSymbol n :: join rest

/-- The symbols of a text after its opening quote. -/
def text : Reader (List Symbol) := fun cs => do
  let (cs, rest) ← untilQuote cs
  let ms ← marks? cs
  some (join ms, rest)

/-- A text as a value. -/
def textValue (cs : List Symbol) : Value :=
  match Text.whole? cs with
  | some s => .text s
  | none => .unreadable

/-! ### Numbers and names -/

/-- A decimal digit. -/
def isDigit : Symbol → Bool
  | some c => Decimal.isDigit c
  | none => false

/-- One digit or more. -/
def digits : Reader (List Char) := fun cs =>
  let ds := (cs.takeWhile isDigit).filterMap id
  if ds.isEmpty then none else some (ds, cs.dropWhile isDigit)

/-- The digits before the point: a zero, or digits that do not start with one. -/
def wholePart : Reader (List Char)
  | some '0' :: rest => some (['0'], rest)
  | cs => digits cs

/-- The point and the digits after it, if there is a point. -/
def fractionPart : Reader (Bool × List Char)
  | some '.' :: rest => do
    let (ds, rest) ← digits rest
    some ((true, ds), rest)
  | cs => some ((false, []), cs)

/-- The sign of an exponent, if it has one: whether it is negative. -/
def signPart : List Symbol → Bool × List Symbol
  | some '-' :: rest => (true, rest)
  | some '+' :: rest => (false, rest)
  | rest => (false, rest)

/-- The exponent, if there is one: whether it is negative, and its digits. -/
def exponentPart : Reader (Option (Bool × List Char))
  | c :: rest =>
    if c = some 'e' || c = some 'E' then do
      let (negative, rest) := signPart rest
      let (ds, rest) ← digits rest
      some (some (negative, ds), rest)
    else some (none, c :: rest)
  | [] => some (none, [])

/-- A number, after its minus sign if it has one. -/
def numeral (negative : Bool) : Reader Numeral := fun cs => do
  let (whole, rest) ← wholePart cs
  let ((hasPoint, fraction), rest) ← fractionPart rest
  let (exponent, rest) ← exponentPart rest
  some (⟨negative, whole, fraction, hasPoint, exponent⟩, rest)

/-- The value of a number. -/
def number (negative : Bool) : Reader Value := fun cs => do
  let (n, rest) ← numeral negative cs
  some (n.value?.getD .unreadable, rest)

/-- A document that is neither a list nor a record. -/
def scalar : Reader Value
  | some 'n' :: some 'u' :: some 'l' :: some 'l' :: rest => some (.null, rest)
  | some 't' :: some 'r' :: some 'u' :: some 'e' :: rest => some (.bool true, rest)
  | some 'f' :: some 'a' :: some 'l' :: some 's' :: some 'e' :: rest => some (.bool false, rest)
  | some '"' :: rest => do
    let (s, rest) ← text rest
    some (textValue s, rest)
  | some '-' :: rest => number true rest
  | cs => number false cs

/-! ### Lists and records -/

/-- One item or more, up to the closing character, the items being separated by
commas.  Every item takes a step of `fuel`. -/
def separated {α : Type} (item : Reader α) (close : Char) : Nat → Reader (List α)
  | 0, _ => none
  | fuel + 1, cs => do
    let (a, rest) ← item cs
    match skipBlank rest with
    | [] => none
    | c :: rest =>
      if c = some ',' then do
        let (as, rest) ← separated item close fuel rest
        some (a :: as, rest)
      else if c = some close then some ([a], rest)
      else none

/-- The items up to the closing character, if there are any.  Every item takes a step of
`fuel`. -/
def enclosed {α : Type} (item : Reader α) (close : Char) (fuel : Nat) : Reader (List α) := fun cs =>
  match skipBlank cs with
  | [] => none
  | c :: rest =>
    if c = some close then some ([], rest) else separated item close fuel (c :: rest)

/-- A field: a name in quotes, a colon, and a value. -/
def field (value : Reader Value) : Reader (List Symbol × Value) := fun cs => do
  match skipBlank cs with
  | some '"' :: rest => do
    let (name, rest) ← text rest
    match skipBlank rest with
    | some ':' :: rest => do
      let (v, rest) ← value rest
      some ((name, v), rest)
    | _ => none
  | _ => none

/-- A record as a value, which takes that all names are texts. -/
def recordValue (fields : List (List Symbol × Value)) : Value :=
  match fields.mapM fun f => (Text.whole? f.1).map fun name => (name, f.2) with
  | some fields => .record fields
  | none => .unreadable

/-- A document after any blanks.  Every list and record takes a step of `fuel`, so as much
fuel as there are symbols is enough. -/
def value : Nat → Reader Value
  | 0, cs => scalar (skipBlank cs)
  | fuel + 1, cs =>
    match skipBlank cs with
    | some '[' :: rest => do
      let (items, rest) ← enclosed (value fuel) ']' fuel rest
      some (.list items, rest)
    | some '{' :: rest => do
      let (fields, rest) ← enclosed (field (value fuel)) '}' fuel rest
      some (recordValue fields, rest)
    | cs => scalar cs

/-- How many lists and records may be nested. -/
def maxDepth : Nat := 127

/-- The document that symbols are, if they are one. -/
def read? (cs : List Symbol) : Option Value := do
  let (v, rest) ← value cs.length cs
  if (skipBlank rest).isEmpty then some (v.limit maxDepth) else none

/-- The document that bytes hold, if they hold one. -/
def ofBytes? (bytes : Bytes) : Option Value :=
  read? (Text.symbols bytes)

end CorpusAudit.Json
