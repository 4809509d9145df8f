import CorpusAudit.Corpus.Record
import CorpusAudit.Feature.Detect

/-!
# Rows

A row of a table is read as a record if it is an object that has all columns and whose
values are of the right kind.  The features stand in a column of their own, or else
are found in the text of the program.  A row that is no record is rejected for a
`RowFault`.
-/

namespace CorpusAudit

/-- A column that a table has to have. -/
inductive Column where
  | id
  | category
  | transpiled
  | errorCodes
  /-- The features of the program. -/
  | features
  /-- The text of the program, from which features are found. -/
  | source
deriving DecidableEq, Repr

namespace Column

/-- The name of a column. -/
def name : Column → String
  | .id => "id"
  | .category => "category"
  | .transpiled => "has_rust"
  | .errorCodes => "error_codes"
  | .features => "feature_flags"
  | .source => "python_code"

/-- The columns that are looked for in rows. -/
def all : List Column :=
  [.id, .category, .transpiled, .errorCodes, .features, .source]

/-- The columns that every row has to have; a row has one of the other two besides. -/
def required : List Column :=
  [.id, .category, .transpiled, .errorCodes]

/-- The first column that is missing, given which are there.  The text of the program
stands in for its features. -/
def firstAbsent? (isPresent : Column → Bool) : Option Column :=
  match required.find? fun c => !isPresent c with
  | some c => some c
  | none => if isPresent .features || isPresent .source then none else some .features

end Column

/-- Why a row is rejected. -/
inductive RowFault where
  | notObject
  | missingColumn (c : Column)
  /-- The row is no document, or a value in it is of a wrong kind. -/
  | invalidValue
  /-- An earlier record has the identifier. -/
  | duplicateId
deriving DecidableEq, Repr

/-- The reason under which rejected rows are counted. -/
def RowFault.reason : RowFault → String
  | .notObject => "not an object"
  | .missingColumn c => s!"missing column '{c.name}'"
  | .invalidValue => "invalid value"
  | .duplicateId => "duplicate id"

namespace Row

/-- Whether an object has a column. -/
def hasColumn (fields : List (String × Value)) (c : Column) : Bool :=
  Value.hasField c.name fields

/-- The record that the fields of a row hold, the values being of the right kind. -/
def decode : Decoder Record := fun v => do
  let fs ← Decode.fields .json ["id", "category", "has_rust", "compiles", "tests_pass",
    "error_codes", "feature_flags", "python_code"] true v
  let id ← fs.required "id" Decode.text
  let category ← fs.required "category" Decode.text
  let transpiled ← fs.required "has_rust" Decode.bool
  let compiles ← fs.orElse "compiles" (Decode.option Decode.bool) none
  let testsPass ← fs.orElse "tests_pass" (Decode.option Decode.bool) none
  let errorCodes ← fs.optional "error_codes" (Decode.list Decode.text)
  let features ← fs.orElse "feature_flags" (Decode.option FeatureSet.decode) none
  let source ← fs.orElse "python_code" (Decode.option Decode.text) none
  some {
    id, category, transpiled, compiles, testsPass
    errorCodes := errorCodes.getD []
    features := features.getD ((source.map FeatureSet.ofSource).getD FeatureSet.empty) }

/-- The fields of a row, if it is an object. -/
def fields? : Option Value → Option (List (String × Value))
  | some (.record fields) => some fields
  | _ => none

/-- The record of a row, or why the row is rejected; `none` is a row that could not be
read at all. -/
def read (row : Option Value) : Except RowFault Record :=
  match row, fields? row with
  | none, _ => .error .invalidValue
  | _, none => .error .notObject
  | _, some fields =>
    match Column.firstAbsent? (hasColumn fields) with
    | some c => .error (.missingColumn c)
    | none => match decode (.record fields) with
      | some r => .ok r
      | none => .error .invalidValue

end Row

end CorpusAudit
