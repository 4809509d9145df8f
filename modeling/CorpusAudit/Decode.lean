import CorpusAudit.Decimal.Binary
import CorpusAudit.Value

/-!
# Reading values

A `Decoder` reads a document value as a value of some type, or refuses it.  A record
with fixed fields is read through `Fields`: its fields may be given by name, in any
order, unknown names being skipped or refused and repetitions refused, or by position,
as a list in the order of declaration that may be cut short where the missing fields
have a default.
-/

namespace CorpusAudit

/-- A reading of document values. -/
abbrev Decoder (α : Type) := Value → Option α

namespace Decode

/-- Any value, with the last field of each name in its records. -/
def any : Decoder Value := fun v =>
  if v.isReadable then some v.settle else none

/-- A truth value. -/
def bool : Decoder Bool
  | .bool b => some b
  | _ => none

/-- A natural number below a bound; a floating-point number is never read as one. -/
def natBelow (bound : Nat) : Decoder Nat
  | .int n => if 0 ≤ n ∧ n < bound then some n.toNat else none
  | _ => none

/-- A count: a natural number of 64 bits. -/
def count : Decoder Nat :=
  natBelow UInt64.size

/-- A floating-point number, or the one nearest to an integer. -/
def float : Decoder Float
  | .float x => some x
  | .int n => some (if n < 0 then -(Float.ofNat n.natAbs) else Float.ofNat n.natAbs)
  | _ => none

/-- A text. -/
def text : Decoder String
  | .text s => some s
  | _ => none

/-- A value or null. -/
def option {α : Type} (d : Decoder α) : Decoder (Option α)
  | .null => some none
  | v => (d v).map some

/-- A list, every item read the same way. -/
def list {α : Type} (d : Decoder α) : Decoder (List α)
  | .list items => items.mapM d
  | _ => none

/-- A record whose fields are the entries of a table; the last of several entries with
one key is kept. -/
def table {α : Type} (d : Decoder α) : Decoder (Table α)
  | .record fields => do
    let entries ← fields.mapM fun f => (d f.2).map fun a => (f.1, a)
    some (Table.ofList entries)
  | _ => none

/-! ### Documents -/

/-- Where a value comes from, as far as its readers have to know. -/
inductive Dialect where
  /-- From a JSON document. -/
  | json
  /-- From a TOML document. -/
  | toml
  /-- From a table of a TOML document whose fields are collected before they are read. -/
  | collected
deriving DecidableEq, Repr

/-- Whether a value stands for "nothing more" beside a name, as in `{"name": null}`,
`name = []` or `name = {}`. -/
def Dialect.isNothing : Dialect → Value → Bool
  | .json, .null => true
  | .toml, .list [] => true
  | .toml, .record [] => true
  | .collected, .record [] => true
  | _, _ => false

/-- Whether the items of a list that are more than the declared fields are skipped. -/
def Dialect.skipsItems : Dialect → Bool
  | .json => false
  | .toml => true
  | .collected => true

/-! ### Alternatives -/

/-- A name: a text, or a record whose only field has that name and holds nothing. -/
def name (d : Dialect) : Decoder String
  | .text s => some s
  | .record [(s, v)] => if d.isNothing v then some s else none
  | _ => none

/-- One of finitely many alternatives, each written as a name. -/
def choice {α : Type} (d : Dialect) (named : String → Option α) : Decoder α := fun v =>
  (name d v).bind named

/-! ### Records -/

/-- The fields of a record that are given, by name. -/
structure Fields where
  /-- The fields were given as a list in the order of declaration. -/
  positional : Bool
  given : List (String × Value)

/-- The fields of a record with the declared names; `others` says whether further names
are skipped. -/
def fields (d : Dialect) (declared : List String) (others : Bool) : Decoder Fields
  | .record fs =>
    let known := fs.filter fun f => declared.contains f.1
    if (known.map (·.1)).Nodup ∧ (others = true ∨ known.length = fs.length) then
      some ⟨false, known⟩
    else none
  | .list items =>
    if d.skipsItems || items.length ≤ declared.length then some ⟨true, declared.zip items⟩
    else none
  | _ => none

/-- The value given for a field. -/
def Fields.find? (fs : Fields) (name : String) : Option Value :=
  (fs.given.find? (·.1 = name)).map (·.2)

/-- A field that has to be given. -/
def Fields.required {α : Type} (fs : Fields) (name : String) (d : Decoder α) : Option α :=
  (fs.find? name).bind d

/-- A field that may be absent or null, but not cut off from a list. -/
def Fields.optional {α : Type} (fs : Fields) (name : String) (d : Decoder α) :
    Option (Option α) :=
  match fs.find? name with
  | some v => option d v
  | none => if fs.positional then none else some none

/-- A field with a default. -/
def Fields.orElse {α : Type} (fs : Fields) (name : String) (d : Decoder α) (a : α) : Option α :=
  match fs.find? name with
  | some v => d v
  | none => some a

end Decode

end CorpusAudit
