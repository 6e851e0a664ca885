import SsaGraph.Inspect
import SsaGraph.World
import SsaGraph.Proofs.Arrangement
import SsaGraph.Proofs.Canonical
import SsaGraph.Proofs.Erasure
import SsaGraph.Proofs.Foreign
import SsaGraph.Proofs.Integrity
import SsaGraph.Proofs.Mirror
import SsaGraph.Proofs.Pool
import SsaGraph.Proofs.Registry
import SsaGraph.Proofs.Safety
import SsaGraph.Proofs.Shaping
import SsaGraph.Proofs.Stability
import SsaGraph.Proofs.Stratification
import SsaGraph.Proofs.Typing
import SsaGraph.Proofs.UseHandle
import SsaGraph.Proofs.UseOrder
import SsaGraph.Proofs.Naming
import SsaGraph.Proofs.Sizing
import SsaGraph.Proofs.Graph.Redirect
import SsaGraph.Proofs.Redirection
import SsaGraph.Proofs.Addressing
import SsaGraph.Proofs.Casting
import SsaGraph.Proofs.Placement
import SsaGraph.Proofs.Unambiguity
import SsaGraph.Proofs.Derivation
import SsaGraph.Proofs.Edges
import SsaGraph.Proofs.Access
import SsaGraph.Proofs.FirstClass
import SsaGraph.Proofs.Operands
import SsaGraph.Proofs.LayoutIdentity
import SsaGraph.Proofs.Precision
