import PropertyGraph.Main
import PropertyGraph.Proofs.Session
import PropertyGraph.Proofs.Session.Removal
import PropertyGraph.Proofs.Traversal.Locality
import PropertyGraph.Proofs.Pattern.Known
import PropertyGraph.Proofs.Pattern.Reversal
import PropertyGraph.Proofs.Traversal.Agreement
import PropertyGraph.Proofs.Document.Text
import PropertyGraph.Proofs.Store.Era
import PropertyGraph.Proofs.Document.Acceptance
import PropertyGraph.Proofs.Document.Legible
import PropertyGraph.Proofs.Command.Clause
import PropertyGraph.Proofs.Command.Rendering
import PropertyGraph.Proofs.Store.Remainder
import PropertyGraph.Proofs.Double.Exact
import PropertyGraph.Proofs.Value.Comparison
import PropertyGraph.Proofs.Value.Number
import PropertyGraph.Proofs.CommandLine.Script
import PropertyGraph.Proofs.Condition.Chain
import PropertyGraph.Proofs.Value.Text
import PropertyGraph.Proofs.Condition.Text
import PropertyGraph.Proofs.Condition.Display
import PropertyGraph.Proofs.Value.Decoding
import PropertyGraph.Proofs.Condition.Where
import PropertyGraph.Proofs.Command.Fault
import PropertyGraph.Proofs.Pattern.Identity
import PropertyGraph.Proofs.CommandLine.Cell
import PropertyGraph.Proofs.Session.Integer
import PropertyGraph.Proofs.CommandLine.Quotation
import PropertyGraph.Proofs.Store.Update
import PropertyGraph.Proofs.Pattern.Loop
import PropertyGraph.Proofs.Pattern.Judgement
