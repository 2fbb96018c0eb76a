import CodeNav.Batch
import CodeNav.Config.Yaml
import CodeNav.Display
import CodeNav.Interleaving
import CodeNav.Json.Record
import CodeNav.Json.Report
import CodeNav.Json.Symbol
import CodeNav.Sink.Lines
import CodeNav.Proofs.Syntax.Linked
import CodeNav.Proofs.Syntax.Preorder
import CodeNav.Proofs.Delivery
import CodeNav.Proofs.Walk
import CodeNav.Proofs.Pass.Declared
import CodeNav.Proofs.Extraction
import CodeNav.Proofs.Pass.Identifiers
import CodeNav.Proofs.Syntax.Redraw
import CodeNav.Proofs.Pass.Pruned
import CodeNav.Proofs.Pass.Toggles
import CodeNav.Proofs.Pass.Justified
import CodeNav.Proofs.Pass.References
import CodeNav.Proofs.Pass.Order
import CodeNav.Proofs.Pass.Extension
import CodeNav.Proofs.Refusal
import CodeNav.Proofs.Pass.Refusal
import CodeNav.Proofs.Json.Pieces
import CodeNav.Proofs.Lines
import CodeNav.Proofs.Pass.Lines
import CodeNav.Proofs.Json.Number
import CodeNav.Proofs.Json.Parse
import CodeNav.Proofs.Json.Decode
import CodeNav.Proofs.Json.Tagged
import CodeNav.Proofs.Json.Stream
import CodeNav.Proofs.Pass.Edges
import CodeNav.Proofs.Syntax.Growth
import CodeNav.Proofs.Traversal
import CodeNav.Proofs.Retry
import CodeNav.Proofs.Pass.Faults
import CodeNav.Proofs.Pass.Precedence
import CodeNav.Proofs.Pass.Retelling
import CodeNav.Proofs.Interleaving
import CodeNav.Proofs.Mentions
import CodeNav.Proofs.LineRuns
import CodeNav.Proofs.Supertypes
import CodeNav.Proofs.Pass.Nested
import CodeNav.Proofs.Symbol.Table
import CodeNav.Proofs.Coverage
import CodeNav.Proofs.Syntax.DepthFirst
import CodeNav.Proofs.Syntax.Descent
import CodeNav.Proofs.Pass.Log
