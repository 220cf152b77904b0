import SelectionCheck.Command.Directory
import SelectionCheck.Document.Outline
import SelectionCheck.Enumeration.Catalogue
import SelectionCheck.Log.Export
import SelectionCheck.Main
import SelectionCheck.Proofs.Check.Beginning
import SelectionCheck.Proofs.Check.Bounded
import SelectionCheck.Proofs.Check.Inlining
import SelectionCheck.Proofs.Check.Joined
import SelectionCheck.Proofs.Check.Lines
import SelectionCheck.Proofs.Check.Unguarded
import SelectionCheck.Proofs.Command.Outcome
import SelectionCheck.Proofs.Document.Faults.Offset
import SelectionCheck.Proofs.Document.Leaves.TypeSystem
import SelectionCheck.Proofs.Document.Progress
import SelectionCheck.Proofs.Document.RoundTrip
import SelectionCheck.Proofs.Document.Span
import SelectionCheck.Proofs.Schema.Permutation
import SelectionCheck.Proofs.Schema.Reference
import SelectionCheck.Proofs.Service.Encoded
import SelectionCheck.Proofs.Service.Recency
import SelectionCheck.Proofs.Token.Distinct
import SelectionCheck.Proofs.Token.Lines
import SelectionCheck.Proofs.Token.Number.Scan
import SelectionCheck.Proofs.Token.Stable
import SelectionCheck.Service.Tally
