import HeapShape.Proofs.Resolution
import HeapShape.Proofs.CellGraphs
import HeapShape.Proofs.Inference
import HeapShape.Proofs.Freed
import HeapShape.Proofs.Traces
import HeapShape.Proofs.Interpretation
import HeapShape.Proofs.TypePreservation
import HeapShape.Proofs.Forgetting
import HeapShape.Proofs.ConflictOrder
import HeapShape.Proofs.FailedDirectives
import HeapShape.Proofs.Rewidening
import HeapShape.Proofs.Asserting
import HeapShape.Proofs.Equating
import HeapShape.Proofs.Precedence
import HeapShape.Proofs.DirectiveTexts
import HeapShape.Proofs.Unification
import HeapShape.Proofs.Inclusion
