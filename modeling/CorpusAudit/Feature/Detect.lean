import CorpusAudit.Feature.Basic
import CorpusAudit.Text.Position
import CorpusAudit.Text.Search

/-!
# Features of a program

When a record has no feature columns, its features are read off the source of the
program.  A feature is taken to be present when one of its markers stands somewhere in
the source; a comprehension is an opening bracket, ` for ` and ` in `, one after the
other on one line.
-/

namespace CorpusAudit

/-- The pieces of source that indicate a feature.  A decorator is a sign at the start of
a line, whichever way the line before it ends.  Comprehensions have no marker. -/
def Feature.markers : Feature → List String
  | .asyncAwait => ["async def", "await ", "asyncio"]
  | .generator => ["yield ", "yield("]
  | .walrusOperator => [":="]
  | .lambda => ["lambda "]
  | .contextManager => ["with ", "__enter__", "__exit__"]
  | .classDefinition => ["class "]
  | .exceptionHandling => ["try:", "except ", "except:", "raise "]
  | .decorator => ["\n@", "\r\n@"]
  | .comprehension => []
  | .stdinUsage => ["stdin", "input("]
  | .multiprocessing => ["multiprocessing", "Pool(", "Process("]
  | .functools => ["functools", "partial(", "reduce("]
  | .evalExec => ["eval(", "exec("]

namespace Source

/-- The brackets that open a comprehension. -/
def brackets : List String := ["[", "\x7b"]

/-- Whether the line goes on with ` for ` after its first `opening` bracket, and with ` in `
after the first ` for ` there.  There is no answer if the line is to be cut inside a character. -/
def clauseAfter? (opening line : String) : Option Bool := do
  let some i := Text.position? opening line | return false
  let afterOpening ← Text.sliceFrom? line (i + 1)
  let some j := Text.position? " for " afterOpening | return false
  let afterFor ← Text.sliceFrom? afterOpening (j + 5)
  return (Text.position? " in " afterFor).isSome

/-- Whether some line of the source holds a comprehension.  The lines are searched one after the
other, until one holds a comprehension. -/
def comprehension? (source : List Char) : Option Bool :=
  (Text.lines source).anyM fun line => brackets.anyM fun opening =>
    clauseAfter? opening (.ofList line)

/-- Whether a comprehension is found in the source.  The search has an answer for every source,
so none is made up here. -/
def hasComprehension (source : List Char) : Bool :=
  (comprehension? source).getD false

/-- Whether the source shows the feature.  A line feed is put in front, so that the
first line starts like every other. -/
def shows (source : List Char) (f : Feature) : Bool :=
  match f with
  | .comprehension => hasComprehension source
  | f => f.markers.any fun m => Text.occursIn m.toList ('\n' :: source)

end Source

/-- An empty source shows nothing. -/
theorem Source.shows_nil (f : Feature) :
  shows [] f = false
  := by
  cases f <;> decide +kernel

/-- The features that a source shows.  An empty source is not searched. -/
def FeatureSet.ofSource (source : String) : FeatureSet :=
  let source := source.toList
  if source.isEmpty then empty else ofPredicate (Source.shows source)

theorem FeatureSet.has_ofSource (source : String) (f : Feature) :
  (ofSource source).has f = Source.shows source.toList f
  := by
  rw [ofSource]
  split
  · next h => rw [List.isEmpty_iff.mp h, Source.shows_nil, empty, has_ofPredicate]
  · apply has_ofPredicate

end CorpusAudit
