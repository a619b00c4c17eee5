import Audience.Decimal.Layout
import Audience.Duration.Spoken
import Audience.Duration.Written
import Audience.Geo.Area
import Audience.Evaluation
import Audience.Main
import Audience.Geo.Geohash
import Audience.Json.Comparison
import Audience.Json.Document
import Audience.Json.Writer
import Audience.Profile.Decode
import Audience.Proofs.Catalog.History
import Audience.Proofs.Evaluation.Records
import Audience.Proofs.Evaluation.Safety
import Audience.Proofs.Language.Documents
import Audience.Proofs.Reading.Joins
import Audience.Proofs.Reading.Leniency
import Audience.Proofs.Reading.Order
import Audience.Proofs.Registry.History
import Audience.Text.Blank
import Audience.Text.Lowercase
import Audience.Text.Units
import Audience.Timestamp
import Audience.Proofs.Reading.Extension
import Audience.Proofs.Evaluation.Inputs
import Audience.Proofs.Evaluation.Events
import Audience.Proofs.Json.Absence
import Audience.Proofs.Evaluation.Absence
import Audience.Proofs.Evaluation.Polarity
import Audience.Proofs.Command.Agreement
import Audience.Proofs.Calendar.Days
import Audience.Proofs.Timestamp.Reading
import Audience.Proofs.Timestamp.Rendering
import Audience.Proofs.Binary64.Bits
import Audience.Proofs.Binary64.Nearest
import Audience.Proofs.Decimal.Reading
import Audience.Proofs.Decimal.Written
import Audience.Proofs.Duration.Spelling
import Audience.Proofs.Duration.Reading
import Audience.Proofs.Decimal.Shortest
import Audience.Proofs.Decimal.Layout
import Audience.Proofs.Duration.Rendering
import Audience.Proofs.Binary64.Arithmetic
import Audience.Proofs.Calendar.Months
import Audience.Proofs.Duration.Offset
import Audience.Proofs.Duration.Fixed
import Audience.Proofs.Binary64.Whole
import Audience.Proofs.Duration.Months
import Audience.Proofs.Text.Units
import Audience.Proofs.Binary64.Counting
import Audience.Proofs.Calendar.Order
import Audience.Proofs.Duration.Cascade
import Audience.Proofs.Duration.Direction
import Audience.Proofs.Duration.Exact
import Audience.Proofs.Duration.Growth
import Audience.Proofs.Geo.RoundTrip
import Audience.Proofs.Geo.Partition
import Audience.Proofs.Json.Numbers
import Audience.Proofs.Evaluation.Comparisons
import Audience.Proofs.Geo.Prefixes
import Audience.Proofs.Geo.Rings
import Audience.Proofs.Binary64.Differences
import Audience.Proofs.Geo.Chords
import Audience.Proofs.Geo.Rectangles
import Audience.Proofs.Evaluation.Dates
import Audience.Proofs.Reading.Nesting
import Audience.Proofs.Reading.Shorthands
import Audience.Proofs.Evaluation.Membership
import Audience.Proofs.Duration.Spoken
import Audience.Proofs.Evaluation.Sources
import Audience.Proofs.Reading.Derived
import Audience.Proofs.Reading.Additions
