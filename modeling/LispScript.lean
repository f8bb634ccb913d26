import LispScript.CommandLine
import LispScript.Config
import LispScript.Datum
import LispScript.Decimal.Real
import LispScript.Decimal.Shortest
import LispScript.Disk
import LispScript.Disk.Path
import LispScript.Eval
import LispScript.Eval.Machine
import LispScript.Eval.Operation
import LispScript.Eval.Primitive
import LispScript.Execution
import LispScript.Expr
import LispScript.Fault
import LispScript.FileError
import LispScript.Grammar
import LispScript.Kind
import LispScript.Load
import LispScript.Location
import LispScript.Log
import LispScript.Main
import LispScript.Names
import LispScript.Operator
import LispScript.Outline
import LispScript.Program
import LispScript.Program.Check
import LispScript.Project
import LispScript.Proofs.Alike
import LispScript.Proofs.Arithmetic
import LispScript.Proofs.Bisimilar
import LispScript.Proofs.Carets
import LispScript.Proofs.Cells
import LispScript.Proofs.Checking
import LispScript.Proofs.Clone
import LispScript.Proofs.CloneEqual
import LispScript.Proofs.Comparison
import LispScript.Proofs.Completion
import LispScript.Proofs.Console
import LispScript.Proofs.Continuation
import LispScript.Proofs.Copying
import LispScript.Proofs.DecimalText
import LispScript.Proofs.DeepCopy
import LispScript.Proofs.Dialogue
import LispScript.Proofs.Discovery
import LispScript.Proofs.Echo
import LispScript.Proofs.Encoding
import LispScript.Proofs.Extent
import LispScript.Proofs.Fields
import LispScript.Proofs.Footprint
import LispScript.Proofs.Forms
import LispScript.Proofs.Grammatical
import LispScript.Proofs.Guard
import LispScript.Proofs.Inputs
import LispScript.Proofs.Isolation
import LispScript.Proofs.Layout
import LispScript.Proofs.Literal
import LispScript.Proofs.Loading
import LispScript.Proofs.Malformed
import LispScript.Proofs.Mutation
import LispScript.Proofs.Naming
import LispScript.Proofs.Nearest
import LispScript.Proofs.Nesting
import LispScript.Proofs.NumberSyntax
import LispScript.Proofs.Observation
import LispScript.Proofs.Operation
import LispScript.Proofs.Orderly
import LispScript.Proofs.Ordinary
import LispScript.Proofs.Paths
import LispScript.Proofs.Placeless
import LispScript.Proofs.Plan
import LispScript.Proofs.Preset
import LispScript.Proofs.Primitive
import LispScript.Proofs.Printing
import LispScript.Proofs.Provenance
import LispScript.Proofs.Quotient
import LispScript.Proofs.Reach
import LispScript.Proofs.Readback
import LispScript.Proofs.Reading
import LispScript.Proofs.RealOrder
import LispScript.Proofs.RealReading
import LispScript.Proofs.Realm
import LispScript.Proofs.Recall
import LispScript.Proofs.Regime
import LispScript.Proofs.Relocation
import LispScript.Proofs.Representation
import LispScript.Proofs.Resolution
import LispScript.Proofs.Restart
import LispScript.Proofs.Retention
import LispScript.Proofs.RoundTrip
import LispScript.Proofs.Safety
import LispScript.Proofs.Scanning
import LispScript.Proofs.Scope
import LispScript.Proofs.Sharing
import LispScript.Proofs.Shift
import LispScript.Proofs.Shortest
import LispScript.Proofs.Sites
import LispScript.Proofs.Sound
import LispScript.Proofs.Splitting
import LispScript.Proofs.Stable
import LispScript.Proofs.StringOp
import LispScript.Proofs.Taking
import LispScript.Proofs.Tidy
import LispScript.Proofs.Tiling
import LispScript.Proofs.Tree
import LispScript.Proofs.Twin
import LispScript.Proofs.TwinForms
import LispScript.Proofs.TwinOperation
import LispScript.Proofs.TwinSources
import LispScript.Proofs.Unmentioned
import LispScript.Proofs.Unwinding
import LispScript.Proofs.Wellformed
import LispScript.ReadError
import LispScript.Report
import LispScript.Session
import LispScript.Session.Console
import LispScript.Session.Dialogue
import LispScript.Session.History
import LispScript.SpecialForm
import LispScript.Store
import LispScript.Text.Blank
import LispScript.Text.Chunk
import LispScript.Text.Glyph
import LispScript.Text.Printable
import LispScript.Text.Quoted
import LispScript.Text.Terminal
import LispScript.TextBuffer
import LispScript.Token
import LispScript.Toml.Config
import LispScript.Toml.Document
import LispScript.Toml.Parser
import LispScript.Toml.Scalar
import LispScript.Toml.Statement
import LispScript.Value
import LispScript.Value.Clone
import LispScript.Value.Equal
import LispScript.Value.Order
import LispScript.Value.Print
import LispScript.Workspace
