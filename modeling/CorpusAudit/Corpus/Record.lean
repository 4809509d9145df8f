import CorpusAudit.Feature.Basic

/-!
# Records

A `Record` is one attempt at transpiling a program: whether there was a result, whether
the result compiles and passes its tests, the errors of the compiler, and the features
of the program.  Its `outcome` is known once the result was compiled; a record passes
only if its outcome is known to be good.
-/

namespace CorpusAudit

/-- How an attempt turned out. -/
inductive Outcome where
  | pass
  | fail
deriving DecidableEq, Repr

/-- One attempt at transpiling a program. -/
structure Record where
  id : String
  category : String
  /-- There is a result. -/
  transpiled : Bool
  /-- Whether the result compiles, once this was tried. -/
  compiles : Option Bool
  /-- Whether the result passes the tests, once this was tried. -/
  testsPass : Option Bool
  /-- The errors of the compiler, in the order in which it told them. -/
  errorCodes : List String
  features : FeatureSet
deriving DecidableEq, Repr, Inhabited

namespace Record

/-- The outcome of a record that was compiled: what does not compile fails, whatever the
tests say, and what compiles fails only if its tests are known to fail. -/
def outcome (r : Record) : Option Outcome :=
  match r.compiles, r.testsPass with
  | none, _ => none
  | some false, _ => some .fail
  | some true, some false => some .fail
  | some true, _ => some .pass

/-- Whether a record is known to have passed. -/
def isPassing (r : Record) : Bool :=
  r.outcome = some .pass

/-- A record passes exactly when it compiles and is not known to fail its tests. -/
theorem isPassing_iff (r : Record) :
  r.isPassing = true ↔ r.compiles = some true ∧ r.testsPass ≠ some false
  := by
  obtain ⟨_, _, _, compiles, testsPass, _, _⟩ := r
  rcases compiles with _ | (_ | _) <;> rcases testsPass with _ | (_ | _) <;>
    simp [isPassing, outcome]

/-- The columns of a record. -/
def columns (r : Record) : List (String × Value) :=
  [("id", .text r.id),
   ("category", .text r.category),
   ("has_rust", .bool r.transpiled),
   ("compiles", .ofOption .bool r.compiles),
   ("tests_pass", .ofOption .bool r.testsPass),
   ("error_codes", .list (r.errorCodes.map .text)),
   ("feature_flags", r.features.toValue)]

end Record

end CorpusAudit
