import Redline.Anchor
import Redline.Color
import Redline.Command.Clock
import Redline.Command.Execute
import Redline.Command.Line
import Redline.Command.Pack
import Redline.Command.Path
import Redline.Command.Request
import Redline.Command.Storage
import Redline.Command.Workspace
import Redline.Context
import Redline.Document.Basic
import Redline.Document.Bookmark
import Redline.Document.Effect
import Redline.Document.Forest
import Redline.Document.Host
import Redline.Document.Notation
import Redline.Document.Paragraph
import Redline.Document.Saving
import Redline.Document.Stylesheet
import Redline.Execution
import Redline.Failure
import Redline.Fault
import Redline.Heading.Best
import Redline.Heading.Score
import Redline.Json.Basic
import Redline.Json.Coercion
import Redline.Json.Display
import Redline.Json.Parser
import Redline.Json.Printer
import Redline.Main
import Redline.Number.Binary64
import Redline.Number.Numeral
import Redline.Number.Shortest
import Redline.Passage
import Redline.Plan.Action
import Redline.Plan.Check
import Redline.Plan.Draft
import Redline.Plan.Operation
import Redline.Plan.Response
import Redline.Plan.Violation
import Redline.Proofs.Anchor.Latest
import Redline.Proofs.Anchor.Marking
import Redline.Proofs.Anchor.Missing
import Redline.Proofs.Anchor.Range
import Redline.Proofs.Anchor.Sections
import Redline.Proofs.Anchor.Selecting
import Redline.Proofs.Anchor.Standing
import Redline.Proofs.Color
import Redline.Proofs.Command.Applying
import Redline.Proofs.Command.Attempt
import Redline.Proofs.Command.Files
import Redline.Proofs.Context.Agreement
import Redline.Proofs.Context.Chapters
import Redline.Proofs.Context.Relevance
import Redline.Proofs.Document.Accepting
import Redline.Proofs.Document.Bookmarking
import Redline.Proofs.Document.Bookmarks
import Redline.Proofs.Document.Capture
import Redline.Proofs.Document.Carrying
import Redline.Proofs.Document.Clearing
import Redline.Proofs.Document.Correcting
import Redline.Proofs.Document.Covering
import Redline.Proofs.Document.Edits
import Redline.Proofs.Document.Exchanging
import Redline.Proofs.Document.Guarding
import Redline.Proofs.Document.Insertion
import Redline.Proofs.Document.Notation
import Redline.Proofs.Document.Rebuilding
import Redline.Proofs.Document.Regaining
import Redline.Proofs.Document.Removal
import Redline.Proofs.Document.Replacing
import Redline.Proofs.Document.Retexting
import Redline.Proofs.Document.Sparing
import Redline.Proofs.Document.Standing
import Redline.Proofs.Document.Styles
import Redline.Proofs.Document.Styling
import Redline.Proofs.Document.WellFormed
import Redline.Proofs.Document.Wrapping
import Redline.Proofs.Editing
import Redline.Proofs.Execution.Accepting
import Redline.Proofs.Execution.Blocks
import Redline.Proofs.Execution.Bookmarks
import Redline.Proofs.Execution.Choosing
import Redline.Proofs.Execution.Coloring
import Redline.Proofs.Execution.Correct
import Redline.Proofs.Execution.Formatting
import Redline.Proofs.Execution.Insertion
import Redline.Proofs.Execution.Placing
import Redline.Proofs.Execution.Positions
import Redline.Proofs.Execution.Refusals
import Redline.Proofs.Execution.Repeating
import Redline.Proofs.Execution.Replace
import Redline.Proofs.Execution.Run
import Redline.Proofs.Execution.Showing
import Redline.Proofs.Execution.Stopping
import Redline.Proofs.Execution.Styling
import Redline.Proofs.Flushing
import Redline.Proofs.Forest.Carrying
import Redline.Proofs.Forest.Cells
import Redline.Proofs.Forest.Characters
import Redline.Proofs.Forest.Controls
import Redline.Proofs.Forest.Correcting
import Redline.Proofs.Forest.Enclosing
import Redline.Proofs.Forest.Gathering
import Redline.Proofs.Forest.Growth
import Redline.Proofs.Forest.Guarding
import Redline.Proofs.Forest.Handles
import Redline.Proofs.Forest.Marks
import Redline.Proofs.Forest.Neighbours
import Redline.Proofs.Forest.Order
import Redline.Proofs.Forest.Places
import Redline.Proofs.Forest.Rewrite
import Redline.Proofs.Forest.Roles
import Redline.Proofs.Forest.Rows
import Redline.Proofs.Forest.Showing
import Redline.Proofs.Forest.Splice
import Redline.Proofs.Forest.TreeOrder
import Redline.Proofs.Forest.Wrapping
import Redline.Proofs.Heading.Best
import Redline.Proofs.Heading.Ranking
import Redline.Proofs.Landing
import Redline.Proofs.Number.Digits
import Redline.Proofs.Number.Rounding
import Redline.Proofs.Number.Signed
import Redline.Proofs.Number.Values
import Redline.Proofs.Plan.Checked
import Redline.Proofs.Plan.Grammar
import Redline.Proofs.Plan.Reading
import Redline.Proofs.Plan.Wording
import Redline.Proofs.Plan.WrittenForm
import Redline.Proofs.Preparing
import Redline.Proofs.Run.Carrying
import Redline.Proofs.Run.Inserting
import Redline.Proofs.Run.Landing
import Redline.Proofs.Run.Reporting
import Redline.Proofs.Run.Stopping
import Redline.Proofs.Session
import Redline.Proofs.Snapshot.Matching
import Redline.Proofs.Snapshot.Numbering
import Redline.Proofs.Snapshot.Outline
import Redline.Proofs.Snapshot.Partition
import Redline.Proofs.Snapshot.Precedence
import Redline.Proofs.Snapshot.Recovery
import Redline.Proofs.Snapshot.Refinement
import Redline.Proofs.Snapshot.Retexting
import Redline.Proofs.Snapshot.RoundTrip
import Redline.Proofs.Snapshot.Sections
import Redline.Proofs.Snapshot.Stopping
import Redline.Proofs.Snapshot.Writing
import Redline.Proofs.Stopping
import Redline.Proofs.Text.Correcting
import Redline.Proofs.Text.Strip
import Redline.Proofs.Text.Substitution
import Redline.Rules.Basic
import Redline.Rules.Pack
import Redline.Run
import Redline.Snapshot.Apply
import Redline.Snapshot.Basic
import Redline.Snapshot.Extract
import Redline.Snapshot.Rematch
import Redline.Summary
import Redline.Text.Blank
import Redline.Text.CaseRuns
import Redline.Text.Cased
import Redline.Text.Digit
import Redline.Text.Lowercase
import Redline.Text.Occurrence
import Redline.Text.Pattern
import Redline.Text.Printable
import Redline.Text.Quoted
import Redline.Text.Ranges
import Redline.Text.Uppercase
import Redline.Text.Word
import Redline.Text.Writing
