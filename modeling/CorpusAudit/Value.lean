import CorpusAudit.Table

/-!
# Document values

A `Value` is what a structured document denotes, whatever the syntax it is written in.
The fields of a record are kept in the order in which they are written, and a name may
be written more than once: readers of records with fixed fields refuse a repetition,
and `Value.settle` keeps the last field of each name, in the order of the names.

A part of a document may have the form of a value and yet denote none, such as a number
out of range.  It is `unreadable`: nothing is read from it, so it does harm only where it
is not passed over (`Value.isReadable`).
-/

namespace CorpusAudit

/-- The value of a structured document. -/
inductive Value where
  | null
  | bool (b : Bool)
  | int (n : Int)
  | float (x : Float)
  | text (s : String)
  | list (items : List Value)
  | record (fields : List (String × Value))
  /-- A part that denotes no value. -/
  | unreadable
deriving Repr, Inhabited

namespace Value

/-- A natural number as a value. -/
def nat (n : Nat) : Value :=
  .int n

/-- An optional value, written as null when absent. -/
def ofOption {α : Type} (f : α → Value) : Option α → Value
  | some a => f a
  | none => .null

/-- The value of the last field with the given name. -/
def field? (name : String) (fields : List (String × Value)) : Option Value :=
  (fields.reverse.find? (·.1 = name)).map (·.2)

/-- Whether there is a field with the given name. -/
def hasField (name : String) (fields : List (String × Value)) : Bool :=
  fields.any (·.1 = name)

/-- A field is found exactly when there is one. -/
theorem isSome_field? (name : String) (fields : List (String × Value)) :
  (field? name fields).isSome = hasField name fields
  := by
  rw [Bool.eq_iff_iff]
  simp [field?, hasField, List.find?_isSome]

mutual

/-- The value with the fields of every record in the order of their names, the last
field of each name being kept. -/
def settle : Value → Value
  | .list items => .list (settleItems items)
  | .record fields => .record ((Table.ofList (settleFields fields)).entries)
  | v => v
termination_by structural v => v

/-- The values of a list, each settled. -/
def settleItems : List Value → List Value
  | [] => []
  | v :: vs => settle v :: settleItems vs
termination_by structural vs => vs

/-- The fields of a record as written, their values settled. -/
def settleFields : List (String × Value) → List (String × Value)
  | [] => []
  | (n, v) :: fs => (n, settle v) :: settleFields fs
termination_by structural fs => fs

end

mutual

/-- Whether all parts of a value denote values. -/
def isReadable : Value → Bool
  | .list items => areReadable items
  | .record fields => fieldsAreReadable fields
  | .unreadable => false
  | _ => true
termination_by structural v => v

/-- Whether all parts of the values in a list denote values. -/
def areReadable : List Value → Bool
  | [] => true
  | v :: vs => isReadable v && areReadable vs
termination_by structural vs => vs

/-- Whether all parts of the fields of a record denote values. -/
def fieldsAreReadable : List (String × Value) → Bool
  | [] => true
  | (_, v) :: fs => isReadable v && fieldsAreReadable fs
termination_by structural fs => fs

end

mutual

/-- The value with at most `depth` lists and records inside each other: those that are
nested deeper are unreadable. -/
def limit (depth : Nat) : Value → Value
  | .list items => match depth with
    | 0 => .unreadable
    | d + 1 => .list (limitItems d items)
  | .record fields => match depth with
    | 0 => .unreadable
    | d + 1 => .record (limitFields d fields)
  | v => v
termination_by structural v => v

/-- The values of a list, each with at most `depth` lists and records inside each other. -/
def limitItems (depth : Nat) : List Value → List Value
  | [] => []
  | v :: vs => limit depth v :: limitItems depth vs
termination_by structural vs => vs

/-- The fields of a record, each value with at most `depth` lists and records inside each
other. -/
def limitFields (depth : Nat) : List (String × Value) → List (String × Value)
  | [] => []
  | (n, v) :: fs => (n, limit depth v) :: limitFields depth fs
termination_by structural fs => fs

end

end Value

end CorpusAudit
