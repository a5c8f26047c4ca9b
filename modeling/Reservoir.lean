import Reservoir.Bytes
import Reservoir.Text.Blank
import Reservoir.Text.Number
import Reservoir.Text.Quoted
import Reservoir.Decimal.Binary
import Reservoir.Decimal.Word
import Reservoir.Text.Utf8
import Reservoir.Decimal.Reading
import Reservoir.Decimal.Shortest
import Reservoir.Decimal.Text
import Reservoir.ElementType
import Reservoir.Fault
import Reservoir.Keyword.Access
import Reservoir.Record
import Reservoir.Stream.Blocks
import Reservoir.Stream.Encoding
import Reservoir.Stream.Lines
import Reservoir.Stream.Codec
import Reservoir.Stream.Progress
import Reservoir.Stream.Scan
import Reservoir.Stream.Writer
import Reservoir.Catalog
import Reservoir.Disk
import Reservoir.KeywordFile
import Reservoir.Grid.Cell
import Reservoir.Grid.MapAxes
import Reservoir.Grid.Basic
import Reservoir.Grid.Build
import Reservoir.Summary.Calendar
import Reservoir.Summary.Pattern
import Reservoir.Summary.Quantity
import Reservoir.Summary.Variable
import Reservoir.Summary.Series
import Reservoir.Summary.Query
import Reservoir.Proofs.Outcome
import Reservoir.Proofs.Text.Ascii
import Reservoir.Proofs.Text.Digits
import Reservoir.Proofs.Stream.Framing
import Reservoir.Proofs.Stream.Dividing
import Reservoir.Proofs.Stream.Reorder
import Reservoir.Proofs.Stream.Writing
import Reservoir.Proofs.Stream.RecordRoundTrip
import Reservoir.Reader
import Reservoir.Proofs.Stream.Skipping
import Reservoir.Proofs.Stream.Faults
import Reservoir.Proofs.Stream.Cataloguing
import Reservoir.Proofs.Grid.Install
import Reservoir.Proofs.Grid.Linked
import Reservoir.Proofs.Decimal.ReadBack
import Reservoir.Proofs.Decimal.Spelling
import Reservoir.Proofs.Stream.Values
import Reservoir.Proofs.Stream.LineRoundTrip
import Reservoir.Proofs.Stream.Layout
import Reservoir.Proofs.Stream.PartialReads
import Reservoir.Proofs.Text.Spellings
import Reservoir.Proofs.Stream.Canonical
import Reservoir.Proofs.Stream.Holding
import Reservoir.Proofs.Stream.Aligned
import Reservoir.Proofs.Stream.Truncation
import Reservoir.Proofs.Stream.Recognizing
import Reservoir.Proofs.Grid.Sections
import Reservoir.Proofs.Grid.CellOrder
import Reservoir.Proofs.Grid.Recorded
import Reservoir.Proofs.Grid.RecordTable
import Reservoir.Proofs.Grid.Layouts
import Reservoir.Proofs.Grid.Growth
import Reservoir.Proofs.Grid.RecordRanges
import Reservoir.Proofs.Grid.Listed
import Reservoir.Proofs.Grid.Endpoints
import Reservoir.Proofs.Grid.Loose
import Reservoir.Proofs.Grid.Declared
import Reservoir.Proofs.Summary.Opening
import Reservoir.Proofs.Summary.Columns
import Reservoir.Proofs.Summary.Keys
import Reservoir.Proofs.Summary.Dates
import Reservoir.Proofs.Summary.Increasing
import Reservoir.Proofs.Summary.Parameters
import Reservoir.Proofs.Grid.Rearranged
import Reservoir.Proofs.Summary.Reports
import Reservoir.Proofs.Summary.Timeline
import Reservoir.Proofs.Grid.ActiveCells
import Reservoir.Proofs.Grid.Activity
import Reservoir.Proofs.Stream.Staleness
import Reservoir.Proofs.Stream.StringText
import Reservoir.IndexedFile
import Reservoir.Proofs.Stream.Places
import Reservoir.Proofs.Stream.Lookup
import Reservoir.Proofs.Keyword.Changes
import Reservoir.Proofs.Stream.Probing
import Reservoir.Proofs.Grid.Reading
import Reservoir.Proofs.Grid.Accepted
import Reservoir.Proofs.Grid.Named
import Reservoir.Proofs.Grid.Corners
import Reservoir.Proofs.Summary.TimeLookup
import Reservoir.Proofs.Grid.CellSearch
import Reservoir.Proofs.Decimal.Difference
import Reservoir.Proofs.Summary.Interpolation
import Reservoir.Proofs.Summary.Resolving
import Reservoir.Proofs.Summary.Wildcards
import Reservoir.Text.Regex
import Reservoir.Summary.KeyTable
import Reservoir.Proofs.Text.Regex
import Reservoir.Proofs.Summary.Addresses
import Reservoir.Proofs.Keyword.Strings
import Reservoir.Proofs.Grid.HostBox
import Reservoir.Proofs.Decimal.Exponential
import Reservoir.Proofs.Stream.Partition
import Reservoir.Proofs.Summary.Stored
import Reservoir.Proofs.Summary.Quantities
import Reservoir.Proofs.Summary.Placeholders
import Reservoir.Proofs.Summary.RestartCase
