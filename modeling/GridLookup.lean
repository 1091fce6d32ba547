import GridLookup.Main
import GridLookup.Proofs.Restoring
import GridLookup.Proofs.Truncation
import GridLookup.Proofs.Consistency
import GridLookup.Proofs.ByteOrder
import GridLookup.Proofs.Locality
import GridLookup.Proofs.Weight
import GridLookup.Proofs.Monotone
import GridLookup.Proofs.Indexing
import GridLookup.Proofs.Safety
import GridLookup.Proofs.Packed
import GridLookup.Proofs.Naming
import GridLookup.Proofs.OneAxis
import GridLookup.Proofs.Limit
import GridLookup.Proofs.Refusal
import GridLookup.Proofs.Rows
import GridLookup.Proofs.Query
import GridLookup.Proofs.Closest
import GridLookup.Proofs.Addressing
import GridLookup.Proofs.Decimal.Characters
import GridLookup.Proofs.PointText
import GridLookup.Proofs.Yaml.Schema
import GridLookup.Proofs.Yaml.Gaps
import GridLookup.Proofs.Yaml.PlainText
import GridLookup.Proofs.Yaml.QuotedText
import GridLookup.Proofs.Yaml.LiteralText
import GridLookup.Proofs.Yaml.Lines
import GridLookup.Proofs.Yaml.Values
import GridLookup.Proofs.Yaml.TreeText
import GridLookup.Proofs.Numeral
import GridLookup.Proofs.Decimal.Interval
import GridLookup.Proofs.Decimal.Shortest
import GridLookup.Proofs.Decimal.Reading
import GridLookup.Proofs.Decimal.Spelling
import GridLookup.Proofs.Decimal.NumberText
import GridLookup.Proofs.Yaml.NumberText
import GridLookup.Proofs.Yaml.DocumentText
import GridLookup.Proofs.LayoutText
import GridLookup.Proofs.Count
import GridLookup.Proofs.Portions
import GridLookup.Proofs.Barometer
import GridLookup.Proofs.Calls
