import CorpusAudit.Value

/-!
# Tables of TOML documents

A TOML document is written piece by piece: a header opens a table or adds one to a list of
tables, and the lines below it put values into that table, perhaps under dotted keys.
`Items` are the entries that a table has so far.  How a table came about decides what
may still be done to it, so that nothing is ever defined twice.
-/

namespace CorpusAudit.Toml

/-- How a table came about. -/
inductive Origin where
  /-- By a header of its own. -/
  | header
  /-- As part of a longer header; a header of its own may follow. -/
  | implied
  /-- As part of a dotted key; more dotted keys may follow. -/
  | dotted
deriving DecidableEq, Repr

/-- What a key stands for. -/
inductive Item where
  | value (v : Value)
  | table (origin : Origin) (items : List (String × Item))
  /-- A list of tables, the last one first. -/
  | tables (elements : List (List (String × Item)))
deriving Repr, Inhabited

/-- The entries of a table. -/
abbrev Items := List (String × Item)

namespace Items

/-- What a key stands for in a table. -/
def find? (items : Items) (key : String) : Option Item :=
  (List.find? (·.1 = key) items).map (·.2)

/-- Let a key stand for something, in the place of what it stood for. -/
def put (items : Items) (key : String) (i : Item) : Items :=
  if items.any (·.1 = key) then items.map fun e => if e.1 = key then (key, i) else e
  else items ++ [(key, i)]

/-- Change the table to which a path leads, tables on the way being made where they are
missing.  A path goes through the last table of a list.  `byKey` says that the path is
part of a dotted key, which leads through no table that has a header. -/
def modify (byKey : Bool) (change : Origin → Items → Option Items) :
    List String → Origin → Items → Option Items
  | [], origin, items => change origin items
  | key :: path, _, items =>
    match items.find? key with
    | none => do
      let origin : Origin := if byKey then .dotted else .implied
      let inner ← modify byKey change path origin []
      some (items.put key (.table origin inner))
    | some (.value _) => none
    | some (.tables []) => none
    | some (.tables (last :: before)) => do
      let last ← modify byKey change path .header last
      some (items.put key (.tables (last :: before)))
    | some (.table origin inner) =>
      if byKey && origin = .header then none
      else do
        let inner ← modify byKey change path origin inner
        some (items.put key (.table origin inner))

/-- Put a value under a dotted key.  Only dotted keys make and extend the tables that a
dotted key goes through. -/
def assign (path : List String) (key : String) (v : Value) (origin : Origin) (items : Items) :
    Option Items :=
  modify true (fun origin items =>
    if (origin = .dotted) = path.isEmpty then none
    else if (items.find? key).isSome then none
    else some (items.put key (.value v))) path origin items

/-- Open a table by its header. -/
def openTable (path : List String) (key : String) (items : Items) : Option Items :=
  modify false (fun _ items =>
    match items.find? key with
    | none => some (items.put key (.table .header []))
    | some (.table .implied inner) => some (items.put key (.table .header inner))
    | some _ => none) path .header items

/-- Add a table to a list of tables by its header. -/
def openElement (path : List String) (key : String) (items : Items) : Option Items :=
  modify false (fun _ items =>
    match items.find? key with
    | none => some (items.put key (.tables [[]]))
    | some (.tables elements) => some (items.put key (.tables ([] :: elements)))
    | some _ => none) path .header items

end Items

mutual

/-- The value of an item. -/
def Item.toValue : Item → Value
  | .value v => v
  | .table _ items => .record (fieldsOf items)
  | .tables elements => .list (elementsOf elements).reverse
termination_by structural i => i

/-- The fields of a table. -/
def fieldsOf : List (String × Item) → List (String × Value)
  | [] => []
  | (key, i) :: items => (key, i.toValue) :: fieldsOf items
termination_by structural items => items

/-- The tables of a list as values. -/
def elementsOf : List (List (String × Item)) → List Value
  | [] => []
  | items :: more => .record (fieldsOf items) :: elementsOf more
termination_by structural elements => elements

end

end CorpusAudit.Toml
