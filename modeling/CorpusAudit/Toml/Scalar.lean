import CorpusAudit.Decimal.Reading
import CorpusAudit.Json.Reader
import CorpusAudit.Time.Instant

/-!
# Scalars of TOML documents

The readers of texts, numbers and dates.  Texts are written in four ways: between quotes,
with escapes, or between apostrophes, without; on one line or on several.  A date or
time is recognized, but nothing is made of it: its value is a record that no reader of
values looks for.
-/

namespace CorpusAudit.Toml

open Text (Reader)

/-- A character that may stand in a text or comment: no control character but the tab. -/
def isPlain (c : Char) : Bool :=
  c = '\t' || 0x20 ≤ c.toNat && c.toNat ≠ 0x7F

/-- A character that separates the parts of a line. -/
def isSpace (c : Char) : Bool :=
  c = ' ' || c = '\t'

/-- The characters from the first that is no space. -/
def skipSpace (cs : List Char) : List Char :=
  cs.dropWhile isSpace

/-- The end of a line: a line feed, perhaps after a carriage return. -/
def newline : Reader Unit
  | '\n' :: rest => some ((), rest)
  | '\r' :: '\n' :: rest => some ((), rest)
  | _ => none

/-! ### Texts -/

/-- The character whose number is written with so many hexadecimal digits. -/
def numbered (width : Nat) : Reader Char := fun cs => do
  let ds := cs.take width
  let values ← ds.mapM Json.hexValue?
  let n := values.foldl (fun n d => n * 16 + d) 0
  if ds.length = width ∧ n.isValidChar then some (Char.ofNat n, cs.drop width) else none

/-- The character of an escape, after its backslash. -/
def escaped : Reader Char
  | 'b' :: rest => some ('\x08', rest)
  | 't' :: rest => some ('\t', rest)
  | 'n' :: rest => some ('\n', rest)
  | 'f' :: rest => some ('\x0c', rest)
  | 'r' :: rest => some ('\r', rest)
  | '"' :: rest => some ('"', rest)
  | '\\' :: rest => some ('\\', rest)
  | 'u' :: rest => numbered 4 rest
  | 'U' :: rest => numbered 8 rest
  | _ => none

/-- The characters of a text up to the closing quote. -/
def basicBody : Nat → Reader (List Char)
  | 0, _ => none
  | _ + 1, [] => none
  | fuel + 1, c :: rest =>
    if c = '"' then some ([], rest)
    else do
      let (c, rest) ← if c = '\\' then escaped rest else if isPlain c then some (c, rest) else none
      let (s, rest) ← basicBody fuel rest
      some (c :: s, rest)

/-- The characters of a text up to the closing apostrophe; there are no escapes. -/
def literalBody : Reader (List Char) := fun cs =>
  let inside (c : Char) : Bool := isPlain c && c ≠ '\''
  match cs.dropWhile inside with
  | '\'' :: rest => some (cs.takeWhile inside, rest)
  | _ => none

/-- The end of a text on several lines: three marks, before which at most two more belong
to the text. -/
def closing (mark : Char) (cs : List Char) : Option (List Char × List Char) :=
  let marks := (cs.take 5).takeWhile (· = mark)
  if marks.length < 3 then none else some (marks.drop 3, cs.drop marks.length)

/-- The characters from the first that is neither a space nor the end of a line. -/
def skipLines : Nat → List Char → List Char
  | 0, cs => cs
  | fuel + 1, cs =>
    let cs := skipSpace cs
    match newline cs with
    | some (_, rest) => skipLines fuel rest
    | none => cs

/-- The characters of a text on several lines between quotes.  A backslash at the end of
a line stands for nothing, and takes the blanks behind it along. -/
def basicLines : Nat → Reader (List Char)
  | 0, _ => none
  | fuel + 1, cs =>
    match closing '"' cs with
    | some end? => some end?
    | none => match cs with
      | [] => none
      | '\\' :: rest =>
        match newline (skipSpace rest) with
        | some (_, rest) => basicLines fuel (skipLines rest.length rest)
        | none => do
          let (c, rest) ← escaped rest
          let (s, rest) ← basicLines fuel rest
          some (c :: s, rest)
      | c :: rest => do
        let (c, rest) ← match newline cs with
          | some (_, rest) => some ('\n', rest)
          | none => if isPlain c then some (c, rest) else none
        let (s, rest) ← basicLines fuel rest
        some (c :: s, rest)

/-- The characters of a text on several lines between apostrophes. -/
def literalLines : Nat → Reader (List Char)
  | 0, _ => none
  | fuel + 1, cs =>
    match closing '\'' cs with
    | some end? => some end?
    | none => match cs with
      | [] => none
      | c :: rest => do
        let (c, rest) ← match newline cs with
          | some (_, rest) => some ('\n', rest)
          | none => if isPlain c then some (c, rest) else none
        let (s, rest) ← literalLines fuel rest
        some (c :: s, rest)

/-- The characters after the end of the line on which a text was opened. -/
def skipFirstNewline (cs : List Char) : List Char :=
  match newline cs with
  | some (_, rest) => rest
  | none => cs

/-- A text on one line. -/
def lineText : Reader String
  | '"' :: rest => do
    let (s, rest) ← basicBody (rest.length + 1) rest
    some (String.ofList s, rest)
  | '\'' :: rest => do
    let (s, rest) ← literalBody rest
    some (String.ofList s, rest)
  | _ => none

/-- A text. -/
def text : Reader String
  | '"' :: '"' :: '"' :: rest => do
    let rest := skipFirstNewline rest
    let (s, rest) ← basicLines (rest.length + 1) rest
    some (String.ofList s, rest)
  | '\'' :: '\'' :: '\'' :: rest => do
    let rest := skipFirstNewline rest
    let (s, rest) ← literalLines (rest.length + 1) rest
    some (String.ofList s, rest)
  | cs => lineText cs

/-! ### Numbers -/

/-- Further digits of a number; an underscore stands between two digits. -/
def moreDigits (isDigit : Char → Bool) : Reader (List Char)
  | [] => some ([], [])
  | '_' :: c :: rest =>
    if isDigit c then (moreDigits isDigit rest).map fun (ds, rest) => (c :: ds, rest) else none
  | c :: rest =>
    if isDigit c then (moreDigits isDigit rest).map fun (ds, rest) => (c :: ds, rest)
    else if c = '_' then none
    else some ([], c :: rest)

/-- The digits of a number, in groups that are separated by underscores. -/
def digits (isDigit : Char → Bool) : Reader (List Char)
  | [] => none
  | c :: rest =>
    if isDigit c then (moreDigits isDigit rest).map fun (ds, rest) => (c :: ds, rest) else none

/-- The digits before the point, which do not start with a zero unless it is the only
one. -/
def wholeDigits : Reader (List Char)
  | '0' :: rest => some (['0'], rest)
  | cs => digits Decimal.isDigit cs

/-- The digits after the point, if there is a point. -/
def fractionDigits : Reader (Option (List Char))
  | '.' :: rest => (digits Decimal.isDigit rest).map fun (ds, rest) => (some ds, rest)
  | cs => some (none, cs)

/-- The exponent, if there is one. -/
def exponent : Reader (Option Int)
  | c :: rest =>
    if c = 'e' || c = 'E' then do
      let (negative, rest) : Bool × List Char := match rest with
        | '-' :: rest => (true, rest)
        | '+' :: rest => (false, rest)
        | rest => (false, rest)
      let (ds, rest) ← digits Decimal.isDigit rest
      let n : Int := Decimal.valueOf 10 ds
      some (some (if negative then -n else n), rest)
    else some (none, c :: rest)
  | [] => some (none, [])

/-- An integer of 64 bits, one of them for the sign. -/
def integer (n : Int) : Option Value :=
  if -9223372036854775808 ≤ n ∧ n ≤ 9223372036854775807 then some (.int n) else none

/-- The nearest floating-point number.  A positive one beyond the range of floating-point
numbers is refused, a negative one is negative infinity. -/
def float (negative : Bool) (m : Nat) (e : Int) : Option Value :=
  let x := Decimal.nearestFloat m e
  if negative then some (.float (-x)) else if x.isInf then none else some (.float x)

/-- A number in base ten, after its sign. -/
def decimal (negative : Bool) : Reader Value
  | 'i' :: 'n' :: 'f' :: rest => some (.float (if negative then -(1 / 0) else 1 / 0), rest)
  | 'n' :: 'a' :: 'n' :: rest => some (.float (0 / 0), rest)
  | cs => do
    let (whole, rest) ← wholeDigits cs
    let (fraction, rest) ← fractionDigits rest
    let (e, rest) ← exponent rest
    let v ← if fraction.isNone && e.isNone then
        let n : Int := Decimal.valueOf 10 whole
        integer (if negative then -n else n)
      else
        let places := fraction.getD []
        float negative (Decimal.valueOf 10 (whole ++ places)) (e.getD 0 - places.length)
    some (v, rest)

/-- An integer in another base, after the mark of the base. -/
def based (base : Nat) (isDigit : Char → Bool) : Reader Value := fun cs => do
  let (ds, rest) ← digits isDigit cs
  let v ← integer (Decimal.valueOf base ds)
  some (v, rest)

/-- A number. -/
def number : Reader Value
  | '0' :: 'x' :: rest => based 16 (fun c => (Json.hexValue? c).isSome) rest
  | '0' :: 'o' :: rest => based 8 (fun c => '0' ≤ c && c ≤ '7') rest
  | '0' :: 'b' :: rest => based 2 (fun c => c = '0' || c = '1') rest
  | '+' :: rest => decimal false rest
  | '-' :: rest => decimal true rest
  | cs => decimal false cs

/-! ### Dates and times -/

/-- A number of a date or time, with all its digits. -/
def component (width least most : Nat) : Reader Nat := fun cs =>
  let ds := cs.take width
  let n := Decimal.valueOf 10 ds
  if ds.length = width ∧ ds.all Decimal.isDigit ∧ least ≤ n ∧ n ≤ most then some (n, cs.drop width)
  else none

/-- A day of the calendar. -/
def date : Reader Unit := fun cs => do
  let (year, cs) ← component 4 0 9999 cs
  let (_, cs) ← Text.character '-' cs
  let (month, cs) ← component 2 1 12 cs
  let (_, cs) ← Text.character '-' cs
  let (day, cs) ← component 2 1 31 cs
  if (Time.Day.mk year month day).isValid then some ((), cs) else none

/-- A time of day. -/
def timeOfDay : Reader Unit := fun cs => do
  let (_, cs) ← component 2 0 23 cs
  let (_, cs) ← Text.character ':' cs
  let (_, cs) ← component 2 0 59 cs
  let (_, cs) ← Text.character ':' cs
  let (_, cs) ← component 2 0 60 cs
  match cs with
  | '.' :: rest =>
    let ds := rest.takeWhile Decimal.isDigit
    some ((), if ds.isEmpty then cs else rest.drop ds.length)
  | _ => some ((), cs)

/-- The characters after an offset from universal time, if there is one. -/
def skipOffset (cs : List Char) : List Char :=
  match cs with
  | [] => []
  | c :: rest =>
    if c = 'Z' || c = 'z' then rest
    else if c = '+' || c = '-' then
      let offset : Option (List Char) := do
        let (_, rest) ← component 2 0 23 rest
        let (_, rest) ← Text.character ':' rest
        let (_, rest) ← component 2 0 59 rest
        some rest
      offset.getD cs
    else cs

/-- The value of all dates and times. -/
def someMoment : Value :=
  .record [("date-time", .null)]

/-- A date, a time of day, or both. -/
def moment : Reader Value := fun cs =>
  match date cs with
  | none => (timeOfDay cs).map fun (_, rest) => (someMoment, rest)
  | some (_, rest) =>
    let afterTime : Option (List Char) := match rest with
      | c :: more =>
        if c = 'T' || c = 't' || c = ' ' then (timeOfDay more).map fun (_, rest) => skipOffset rest
        else none
      | [] => none
    some (someMoment, afterTime.getD rest)

/-- A value that is neither a list nor a table. -/
def scalar : Reader Value
  | 't' :: 'r' :: 'u' :: 'e' :: rest => some (.bool true, rest)
  | 'f' :: 'a' :: 'l' :: 's' :: 'e' :: rest => some (.bool false, rest)
  | cs =>
    match text cs with
    | some (s, rest) => some (.text s, rest)
    | none => match moment cs with
      | some found => some found
      | none => number cs

end CorpusAudit.Toml
