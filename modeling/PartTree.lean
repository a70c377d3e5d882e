import PartTree.Main
import PartTree.Proofs.Compiled
import PartTree.Proofs.Overlay
import PartTree.Proofs.References
import PartTree.Proofs.TypeFlips
import PartTree.Proofs.Calls
import PartTree.Proofs.Equality
import PartTree.Proofs.RoundTrip
import PartTree.Proofs.Rendering
import PartTree.Proofs.Descent
import PartTree.Proofs.Agreement
import PartTree.Proofs.SharedChain
import PartTree.Proofs.Reading
import PartTree.Proofs.Inlining
import PartTree.Proofs.Layers
import PartTree.Proofs.Precompiled
import PartTree.Proofs.Fitted
import PartTree.Proofs.Copies
import PartTree.Proofs.Recompiling
import PartTree.Proofs.Unrolling
import PartTree.Proofs.Leaves
import PartTree.Proofs.Aliases
import PartTree.Proofs.Grammar
import PartTree.Proofs.Offenders
import PartTree.Proofs.Placement
import PartTree.Proofs.Treelike
import PartTree.Proofs.Registering
import PartTree.Proofs.Routes
