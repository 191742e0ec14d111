import Scriptlet.CommandLine
import Scriptlet.CommandLine.Options
import Scriptlet.CommandLine.Path
import Scriptlet.Fault
import Scriptlet.Host
import Scriptlet.Machine
import Scriptlet.Machine.Call
import Scriptlet.Machine.Native
import Scriptlet.Machine.Run
import Scriptlet.Main
import Scriptlet.Node
import Scriptlet.Node.Grammar
import Scriptlet.Node.Operator
import Scriptlet.Number.Decimal
import Scriptlet.Number.Double
import Scriptlet.Number.Integer
import Scriptlet.Proofs.Action
import Scriptlet.Proofs.Node.Fits
import Scriptlet.Session
import Scriptlet.Settings
import Scriptlet.Store
import Scriptlet.Store.Operation
import Scriptlet.Store.Rendering
import Scriptlet.Store.View
import Scriptlet.Table
import Scriptlet.Text.Blank
import Scriptlet.Text.Capital
import Scriptlet.Text.DecimalDigit
import Scriptlet.Text.Escape
import Scriptlet.Text.Printable
import Scriptlet.Text.Quoted
import Scriptlet.Text.Utf8
import Scriptlet.Token
import Scriptlet.Token.Lexeme
import Scriptlet.Token.Scan
import Scriptlet.Token.Stream
import Scriptlet.Value
import Scriptlet.Proofs.Token.Sound
import Scriptlet.Proofs.Grammar.Fits
import Scriptlet.Proofs.Store.Reference
import Scriptlet.Proofs.Store.Change
import Scriptlet.Proofs.Machine.Effect
import Scriptlet.Proofs.Machine.Run
import Scriptlet.Proofs.Session.History
import Scriptlet.Proofs.Session.Safety
import Scriptlet.Proofs.Session.Prototype
import Scriptlet.Proofs.Session.Frame
import Scriptlet.Proofs.Store.Lasting
import Scriptlet.Proofs.Session.Constant
import Scriptlet.Proofs.Machine.Upkeep
import Scriptlet.Proofs.Machine.Distinct
import Scriptlet.Proofs.Session.Upkeep
import Scriptlet.Proofs.Session.Growth
import Scriptlet.Proofs.Token.Spell
import Scriptlet.Proofs.Token.Take
import Scriptlet.Proofs.Node.Spell
import Scriptlet.Proofs.Grammar.Roundtrip
import Scriptlet.Proofs.Erasure
import Scriptlet.Proofs.Token.Layout
import Scriptlet.Proofs.Grammar.Layout
import Scriptlet.Proofs.Store.Layout
import Scriptlet.Proofs.Machine.Layout
import Scriptlet.Proofs.Session.Layout
import Scriptlet.Proofs.Depth
import Scriptlet.Proofs.Token.Scan
import Scriptlet.Proofs.Token.Place
import Scriptlet.Proofs.Token.Laid
import Scriptlet.Proofs.Token.Join
import Scriptlet.Proofs.Data.Shape
import Scriptlet.Proofs.Data.Rendering
import Scriptlet.Proofs.Data.Scanning
import Scriptlet.Proofs.Data.Reading
import Scriptlet.Proofs.Data.Evaluation
import Scriptlet.Proofs.Data.Readback
import Scriptlet.Proofs.Session.Streaming
import Scriptlet.Proofs.Machine.Composed
import Scriptlet.Proofs.Session.EntryPoint
import Scriptlet.Proofs.Grammar.WellFormed
import Scriptlet.Proofs.Token.Progress
import Scriptlet.Proofs.Grammar.Progress
import Scriptlet.Proofs.Token.Firm
import Scriptlet.Proofs.Grammar.Join
import Scriptlet.Proofs.Session.Join
import Scriptlet.Proofs.Session.Standard
import Scriptlet.Proofs.Simulation
import Scriptlet.Proofs.Store.Renaming
import Scriptlet.Proofs.Machine.Renaming
import Scriptlet.Proofs.Session.Reorder
import Scriptlet.Proofs.Store.Exchange
import Scriptlet.Proofs.Session.CallPaths
import Scriptlet.Proofs.Grammar.Precedence
import Scriptlet.Proofs.Token.Demand
import Scriptlet.Proofs.Token.Queue
import Scriptlet.Proofs.Session.Splice
import Scriptlet.Proofs.Session.Inheritance
import Scriptlet.Proofs.Session.Binding
import Scriptlet.Proofs.Machine.Unshared
import Scriptlet.Proofs.Session.Assignment
import Scriptlet.Proofs.Store.Containment
import Scriptlet.Proofs.Session.Formatting
import Scriptlet.Proofs.Session.Misuse
import Scriptlet.Proofs.Text.Utf8
import Scriptlet.Proofs.CommandLine.Report
import Scriptlet.Proofs.Session.ModulePath
import Scriptlet.Proofs.Session.Destructuring
import Scriptlet.Proofs.Session.Scoping
import Scriptlet.Proofs.Store.Comparison
import Scriptlet.Proofs.Grammar.Composed
import Scriptlet.Proofs.Grammar.Diagnosis
import Scriptlet.Proofs.Text.Escape
import Scriptlet.Proofs.Store.Indentation
import Scriptlet.Proofs.Machine.Arithmetic
import Scriptlet.Proofs.Session.ObjectLiteral
import Scriptlet.Proofs.Number.Hexadecimal
import Scriptlet.Proofs.Grammar.Numeral
