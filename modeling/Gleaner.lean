import Gleaner.Batch
import Gleaner.Comparison
import Gleaner.Datum
import Gleaner.Exchange
import Gleaner.Failure
import Gleaner.Folder
import Gleaner.Harvest.Basic
import Gleaner.Harvest.Format
import Gleaner.Harvest.Policy
import Gleaner.Harvest.Reading
import Gleaner.Harvest.Run
import Gleaner.Json.Basic
import Gleaner.Json.Numeral
import Gleaner.Json.Quoted
import Gleaner.Json.Read
import Gleaner.Json.Serial
import Gleaner.Json.Write
import Gleaner.JsonPath.Basic
import Gleaner.JsonPath.Fault
import Gleaner.JsonPath.Grammar
import Gleaner.JsonPath.Leaves
import Gleaner.JsonPath.Selecting
import Gleaner.JsonPath.Slice
import Gleaner.JsonPath.Syntax
import Gleaner.KeyMap
import Gleaner.Markup.Axis
import Gleaner.Markup.Builder
import Gleaner.Markup.Doctype
import Gleaner.Markup.ElementKind
import Gleaner.Markup.OpenElements
import Gleaner.Markup.Reading
import Gleaner.Markup.Reference
import Gleaner.Markup.Token
import Gleaner.Markup.Tree
import Gleaner.Markup.Xml
import Gleaner.Number.Binary64
import Gleaner.Number.Layout
import Gleaner.Number.Power
import Gleaner.Number.Read
import Gleaner.Number.Shortest
import Gleaner.Proofs.Agreement.Answers
import Gleaner.Proofs.Agreement.Marker
import Gleaner.Proofs.Agreement.Name
import Gleaner.Proofs.Agreement.Queried
import Gleaner.Proofs.Agreement.Spelled
import Gleaner.Proofs.Agreement.Stepwise
import Gleaner.Proofs.Agreement.Trail
import Gleaner.Proofs.Agreement.Whole
import Gleaner.Proofs.Harvest.Grammar
import Gleaner.Proofs.Harvest.Outcome
import Gleaner.Proofs.Markup.Place
import Gleaner.Proofs.Markup.SmallNames
import Gleaner.Proofs.Query.Following
import Gleaner.Proofs.Query.Reading
import Gleaner.Proofs.Query.Spelling
import Gleaner.Proofs.Query.Written
import Gleaner.Proofs.Selector.Scanning
import Gleaner.Proofs.Selector.Written
import Gleaner.Query.Basic
import Gleaner.Query.Evaluation
import Gleaner.Query.Expression
import Gleaner.Query.Grammar
import Gleaner.Query.Node
import Gleaner.Query.Selecting
import Gleaner.Query.Token
import Gleaner.Query.Value
import Gleaner.Request
import Gleaner.Selector.Basic
import Gleaner.Selector.Compound
import Gleaner.Selector.Css
import Gleaner.Selector.Fault
import Gleaner.Selector.Filter
import Gleaner.Selector.Selecting
import Gleaner.Selector.Split
import Gleaner.Selector.Step
import Gleaner.Text.Blank
import Gleaner.Text.Letter
import Gleaner.Text.Quoted
import Gleaner.Text.Remainder
import Gleaner.Text.Search
import Gleaner.Proofs.Harvest.Calls
import Gleaner.Proofs.Harvest.Refinement
import Gleaner.Proofs.Selector.Counting
import Gleaner.Proofs.Selector.Outline
import Gleaner.Proofs.Selector.Position
import Gleaner.Proofs.JsonPath.Reading
import Gleaner.Proofs.JsonPath.Condition
import Gleaner.Proofs.JsonPath.Whole
import Gleaner.Proofs.Markup.Ordered
import Gleaner.Proofs.Agreement.Order
import Gleaner.Proofs.Query.WellFormed
import Gleaner.Proofs.Query.Printed
import Gleaner.Proofs.Query.RoundTrip
import Gleaner.Proofs.Markup.Ordinary
import Gleaner.Proofs.Markup.WrittenXml
import Gleaner.Proofs.Markup.XmlPieces
import Gleaner.Proofs.Markup.XmlAsHtml
import Gleaner.Proofs.Markup.Tags
import Gleaner.Proofs.Markup.Growth
import Gleaner.Proofs.Markup.XmlTree
import Gleaner.Proofs.Markup.VoidAndRaw
import Gleaner.Proofs.Markup.XmlText
import Gleaner.Proofs.Number.Finite
import Gleaner.Proofs.Json.Below
import Gleaner.Proofs.Harvest.Accounting
import Gleaner.Proofs.Folder.Tree
import Gleaner.Proofs.Folder.Batch
import Gleaner.Proofs.Selector.Grammar
import Gleaner.Proofs.Selector.LastSegment
import Gleaner.Proofs.Selector.Padding
import Gleaner.Proofs.Selector.Division
import Gleaner.Proofs.Selector.CssReading
import Gleaner.Proofs.Query.Misread
import Gleaner.Proofs.Markup.Subtree
import Gleaner.Proofs.Query.Axes
import Gleaner.Proofs.Query.Fusion
import Gleaner.Proofs.Query.DoubleSlash
import Gleaner.Proofs.Query.Mirrored
import Gleaner.Proofs.Query.Lexemes
import Gleaner.Proofs.JsonPath.Slice
import Gleaner.Proofs.Query.Anywhere
import Gleaner.Proofs.JsonPath.Places
import Gleaner.Proofs.JsonPath.Row
import Gleaner.Proofs.JsonPath.Integers
import Gleaner.Proofs.JsonPath.Composition
import Gleaner.Proofs.Harvest.Survival
import Gleaner.Proofs.Harvest.Lists
import Gleaner.Proofs.Exchange
import Gleaner.Proofs.Json.ReadBack
import Gleaner.Proofs.Request
import Gleaner.JsonPath.Cursor
import Gleaner.Proofs.JsonPath.Cursor
import Gleaner.Query.Cursor
import Gleaner.Proofs.Query.Cursor
import Gleaner.Proofs.JsonPath.Overflow
