import CorpusAudit.Baseline.Store
import CorpusAudit.Command.Basic
import CorpusAudit.Command.Messages
import CorpusAudit.Command.Run
import CorpusAudit.Command.Session
import CorpusAudit.Command.Words
import CorpusAudit.Config
import CorpusAudit.Corpus.Basic
import CorpusAudit.Corpus.Reading
import CorpusAudit.Corpus.Record
import CorpusAudit.Corpus.Row
import CorpusAudit.Decimal.Binary
import CorpusAudit.Decimal.Reading
import CorpusAudit.Decimal.Rounding
import CorpusAudit.Decimal.Shortest
import CorpusAudit.Decode
import CorpusAudit.Fault
import CorpusAudit.Feature.Basic
import CorpusAudit.Feature.Detect
import CorpusAudit.Gate.Comparison
import CorpusAudit.Gate.Level
import CorpusAudit.Gate.Snapshot
import CorpusAudit.Golden.Curation
import CorpusAudit.Golden.ErrorCode
import CorpusAudit.Golden.Target
import CorpusAudit.Hash.Blake3
import CorpusAudit.Insight.Basic
import CorpusAudit.Insight.Writer
import CorpusAudit.Json.Number
import CorpusAudit.Json.Reader
import CorpusAudit.Json.Writer
import CorpusAudit.Label.Basic
import CorpusAudit.Label.Statistics
import CorpusAudit.Main
import CorpusAudit.Priority
import CorpusAudit.Proofs.Baseline.Histories
import CorpusAudit.Proofs.Command.Changes
import CorpusAudit.Proofs.Command.Sessions
import CorpusAudit.Proofs.Command.Settings
import CorpusAudit.Proofs.Command.Verdict
import CorpusAudit.Proofs.Corpus.Collecting
import CorpusAudit.Proofs.Corpus.Layouts
import CorpusAudit.Proofs.Corpus.Sniffing
import CorpusAudit.Proofs.Decimal.Binary
import CorpusAudit.Proofs.Decimal.Digits
import CorpusAudit.Proofs.Decimal.Shortest
import CorpusAudit.Proofs.Decode
import CorpusAudit.Proofs.Feature
import CorpusAudit.Proofs.Feature.Detecting
import CorpusAudit.Proofs.Feature.Scanning
import CorpusAudit.Proofs.Feature.Splitting
import CorpusAudit.Proofs.Float
import CorpusAudit.Proofs.Float.Finiteness
import CorpusAudit.Proofs.Float.Magnitude
import CorpusAudit.Proofs.Float.Overflow
import CorpusAudit.Proofs.Float.Rounding
import CorpusAudit.Proofs.Gate.Comparing
import CorpusAudit.Proofs.Gate.Health
import CorpusAudit.Proofs.Gate.Laws
import CorpusAudit.Proofs.Gate.Policies
import CorpusAudit.Proofs.Gate.Untranspiled
import CorpusAudit.Proofs.Golden.Codes
import CorpusAudit.Proofs.Golden.Curating
import CorpusAudit.Proofs.Golden.Summarizing
import CorpusAudit.Proofs.Golden.Targets
import CorpusAudit.Proofs.Insight.Agreement
import CorpusAudit.Proofs.Insight.Analyses
import CorpusAudit.Proofs.Insight.Categories
import CorpusAudit.Proofs.Insight.Ordering
import CorpusAudit.Proofs.Json.Consuming
import CorpusAudit.Proofs.Json.Documents
import CorpusAudit.Proofs.Json.Locality
import CorpusAudit.Proofs.Json.Numerals
import CorpusAudit.Proofs.Json.Ranges
import CorpusAudit.Proofs.Json.Reals
import CorpusAudit.Proofs.Json.Rereading
import CorpusAudit.Proofs.Json.Writing
import CorpusAudit.Proofs.Label.Counting
import CorpusAudit.Proofs.Label.Reloading
import CorpusAudit.Proofs.Label.Rows
import CorpusAudit.Proofs.Label.Statistics
import CorpusAudit.Proofs.Random.Drawing
import CorpusAudit.Proofs.Ranking
import CorpusAudit.Proofs.Reordering
import CorpusAudit.Proofs.Report.Aggregation
import CorpusAudit.Proofs.Report.Consistency
import CorpusAudit.Proofs.Report.Counting
import CorpusAudit.Proofs.Report.Decoding
import CorpusAudit.Proofs.Report.Grading
import CorpusAudit.Proofs.Report.Rereading
import CorpusAudit.Proofs.Review.Counting
import CorpusAudit.Proofs.Review.Directories
import CorpusAudit.Proofs.Review.Rereading
import CorpusAudit.Proofs.Review.Surveys
import CorpusAudit.Proofs.Rule.Documents
import CorpusAudit.Proofs.Rule.Monotonicity
import CorpusAudit.Proofs.Rule.Precedence
import CorpusAudit.Proofs.Rule.Reachability
import CorpusAudit.Proofs.Sample.Allocating
import CorpusAudit.Proofs.Sample.Nesting
import CorpusAudit.Proofs.Sample.Reviewing
import CorpusAudit.Proofs.Sample.Selecting
import CorpusAudit.Proofs.Sample.Totals
import CorpusAudit.Proofs.Storage.Atomicity
import CorpusAudit.Proofs.Storage.Closedness
import CorpusAudit.Proofs.Storage.Failures
import CorpusAudit.Proofs.Storage.Frames
import CorpusAudit.Proofs.Storage.Listing
import CorpusAudit.Proofs.Storage.Paths
import CorpusAudit.Proofs.Storage.Places
import CorpusAudit.Proofs.Storage.Properness
import CorpusAudit.Proofs.Storage.Searching
import CorpusAudit.Proofs.Storage.Trees
import CorpusAudit.Proofs.Suspicion.Localization
import CorpusAudit.Proofs.Suspicion.Rankings
import CorpusAudit.Proofs.Suspicion.Spectra
import CorpusAudit.Proofs.Table
import CorpusAudit.Proofs.Tally
import CorpusAudit.Proofs.Text
import CorpusAudit.Proofs.Text.Positions
import CorpusAudit.Proofs.Time
import CorpusAudit.Proofs.Value
import CorpusAudit.Random.ChaCha
import CorpusAudit.Random.Draw
import CorpusAudit.Report.Basic
import CorpusAudit.Report.Document
import CorpusAudit.Report.Grade
import CorpusAudit.Report.Printing
import CorpusAudit.Review.Item
import CorpusAudit.Review.Summary
import CorpusAudit.Risk
import CorpusAudit.Rule.Basic
import CorpusAudit.Rule.Set
import CorpusAudit.Sample.Allocation
import CorpusAudit.Sample.Basic
import CorpusAudit.Storage.Artifact
import CorpusAudit.Storage.Basic
import CorpusAudit.Storage.Path
import CorpusAudit.Storage.Tree
import CorpusAudit.Suspicion.Printing
import CorpusAudit.Suspicion.Ranking
import CorpusAudit.Suspicion.Spectrum
import CorpusAudit.Table
import CorpusAudit.Tally
import CorpusAudit.Text.Blank
import CorpusAudit.Text.Bytes
import CorpusAudit.Text.Layout
import CorpusAudit.Text.Position
import CorpusAudit.Text.Reader
import CorpusAudit.Text.Search
import CorpusAudit.Time.Instant
import CorpusAudit.Toml.Item
import CorpusAudit.Toml.Reader
import CorpusAudit.Toml.Scalar
import CorpusAudit.Value
import CorpusAudit.Word.Bytes
import CorpusAudit.Word.State
