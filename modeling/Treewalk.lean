import Treewalk.CommandLine
import Treewalk.Decimal.Dyadic
import Treewalk.Decimal.Layout
import Treewalk.Decimal.Shortest
import Treewalk.Document
import Treewalk.Evaluation
import Treewalk.Fault
import Treewalk.Grammar.Expression
import Treewalk.Grammar.Rule
import Treewalk.Grammar.Statement
import Treewalk.Invocation
import Treewalk.Machine
import Treewalk.Main
import Treewalk.Notice
import Treewalk.Operator
import Treewalk.Outline
import Treewalk.Prompt
import Treewalk.Proofs.Direct.Actions
import Treewalk.Proofs.Direct.Frames
import Treewalk.Proofs.Direct.Itself
import Treewalk.Proofs.Direct.Node
import Treewalk.Proofs.Direct.Reading
import Treewalk.Proofs.Direct.Running
import Treewalk.Proofs.Direct.Scopes
import Treewalk.Proofs.Direct.Simulation
import Treewalk.Proofs.Direct.Stores
import Treewalk.Proofs.Direct.Trees
import Treewalk.Proofs.Encapsulation.Actions
import Treewalk.Proofs.Encapsulation.Calls
import Treewalk.Proofs.Encapsulation.Regions
import Treewalk.Proofs.Evaluation.Actions
import Treewalk.Proofs.Evaluation.Bounded
import Treewalk.Proofs.Evaluation.Changes
import Treewalk.Proofs.Evaluation.Closure
import Treewalk.Proofs.Evaluation.Correspondence
import Treewalk.Proofs.Evaluation.Courses
import Treewalk.Proofs.Evaluation.Frames
import Treewalk.Proofs.Evaluation.Globals
import Treewalk.Proofs.Evaluation.Halts
import Treewalk.Proofs.Evaluation.Lawful
import Treewalk.Proofs.Evaluation.Moments
import Treewalk.Proofs.Evaluation.Places
import Treewalk.Proofs.Evaluation.Preservation
import Treewalk.Proofs.Evaluation.Provenance
import Treewalk.Proofs.Evaluation.Soundness
import Treewalk.Proofs.Evaluation.Steady
import Treewalk.Proofs.Evaluation.Story
import Treewalk.Proofs.Evaluation.Tracing
import Treewalk.Proofs.Grammar.Accepting
import Treewalk.Proofs.Grammar.Alike
import Treewalk.Proofs.Grammar.Counting
import Treewalk.Proofs.Grammar.Depth
import Treewalk.Proofs.Grammar.Deriving
import Treewalk.Proofs.Grammar.Ebnf
import Treewalk.Proofs.Grammar.Following
import Treewalk.Proofs.Grammar.Parsing
import Treewalk.Proofs.Grammar.Prefixes
import Treewalk.Proofs.Grammar.Progress
import Treewalk.Proofs.Grammar.Reading
import Treewalk.Proofs.Grammar.Recognition
import Treewalk.Proofs.Grammar.Segments
import Treewalk.Proofs.Grammar.Steps
import Treewalk.Proofs.Grammar.Tape
import Treewalk.Proofs.Json.Documents
import Treewalk.Proofs.Json.Grammar
import Treewalk.Proofs.Json.Programs
import Treewalk.Proofs.Json.Trees
import Treewalk.Proofs.Json.WellFormed
import Treewalk.Proofs.Numbers.Displayed
import Treewalk.Proofs.Numbers.Doubles
import Treewalk.Proofs.Numbers.Layouts
import Treewalk.Proofs.Numbers.Nearest
import Treewalk.Proofs.Numbers.Packing
import Treewalk.Proofs.Numbers.Printed
import Treewalk.Proofs.Numbers.Rounding
import Treewalk.Proofs.Numbers.Scanned
import Treewalk.Proofs.Numbers.Shortest
import Treewalk.Proofs.Numbers.Spans
import Treewalk.Proofs.Outline.Constants
import Treewalk.Proofs.Outline.Marks
import Treewalk.Proofs.Outline.Rereading
import Treewalk.Proofs.Outline.Shapes
import Treewalk.Proofs.Outline.Trees
import Treewalk.Proofs.Renaming.Acceptance
import Treewalk.Proofs.Renaming.Renaming
import Treewalk.Proofs.Renaming.Runs
import Treewalk.Proofs.Renaming.Scopes
import Treewalk.Proofs.Renaming.Texts
import Treewalk.Proofs.Resolution.Alike
import Treewalk.Proofs.Resolution.Correctness
import Treewalk.Proofs.Resolution.Enclosures
import Treewalk.Proofs.Resolution.Names
import Treewalk.Proofs.Resolution.Occurrences
import Treewalk.Proofs.Resolution.Origins
import Treewalk.Proofs.Resolution.Receivers
import Treewalk.Proofs.Resolution.Sites
import Treewalk.Proofs.Resolution.Visits
import Treewalk.Proofs.Run
import Treewalk.Proofs.Search.Access
import Treewalk.Proofs.Search.Declared
import Treewalk.Proofs.Session.Agreement
import Treewalk.Proofs.Session.Assignments
import Treewalk.Proofs.Session.Bounded
import Treewalk.Proofs.Session.Calls
import Treewalk.Proofs.Session.Chronicle
import Treewalk.Proofs.Session.Confinement
import Treewalk.Proofs.Session.Construction
import Treewalk.Proofs.Session.Direct
import Treewalk.Proofs.Session.Globals
import Treewalk.Proofs.Session.History
import Treewalk.Proofs.Session.Joining
import Treewalk.Proofs.Session.Layout
import Treewalk.Proofs.Session.Lines
import Treewalk.Proofs.Session.Parents
import Treewalk.Proofs.Session.Provenance
import Treewalk.Proofs.Session.Rejection
import Treewalk.Proofs.Session.Restoration
import Treewalk.Proofs.Session.Returns
import Treewalk.Proofs.Session.Safety
import Treewalk.Proofs.Session.Soundness
import Treewalk.Proofs.Session.Twins
import Treewalk.Proofs.Source.Ahead
import Treewalk.Proofs.Source.Caret
import Treewalk.Proofs.Source.Comments
import Treewalk.Proofs.Source.Encoding
import Treewalk.Proofs.Source.Lines
import Treewalk.Proofs.Source.Respelling
import Treewalk.Proofs.Source.Scanning
import Treewalk.Proofs.Source.Seam
import Treewalk.Proofs.Source.Shapes
import Treewalk.Proofs.Source.Spacing
import Treewalk.Proofs.Source.Tiling
import Treewalk.Proofs.Source.Watch
import Treewalk.Proofs.Source.Watching
import Treewalk.Proofs.Source.Word
import Treewalk.Proofs.Store.Cells
import Treewalk.Proofs.Store.Octets
import Treewalk.Proofs.Store.Walks
import Treewalk.Proofs.Trees.Numbering
import Treewalk.Proofs.Trees.Rendering
import Treewalk.Proofs.Trees.Renumbering
import Treewalk.Proofs.Trees.Rereading
import Treewalk.Proofs.Trees.Spelling
import Treewalk.Proofs.Twins.Actions
import Treewalk.Proofs.Twins.Itself
import Treewalk.Proofs.Twins.Likeness
import Treewalk.Proofs.Twins.Lines
import Treewalk.Proofs.Twins.Programs
import Treewalk.Proofs.Twins.Simulation
import Treewalk.Proofs.Twins.Stores
import Treewalk.Proofs.Twins.Values
import Treewalk.Resolution
import Treewalk.Scope
import Treewalk.Session
import Treewalk.Sink
import Treewalk.Source.Item
import Treewalk.Source.Piece
import Treewalk.Source.Scanner
import Treewalk.Store
import Treewalk.Surroundings
import Treewalk.Syntax
import Treewalk.SyntaxJson
import Treewalk.Text.Blank
import Treewalk.Text.Extending
import Treewalk.Text.Quoted
import Treewalk.Text.Ranges
import Treewalk.Text.Unassigned
import Treewalk.Token
import Treewalk.Value
