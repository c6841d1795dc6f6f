import Lisplet.Main
import Lisplet.Session
import Lisplet.Proofs.Classification
import Lisplet.Proofs.Grammar
import Lisplet.Proofs.Lexemes
import Lisplet.Proofs.RoundTrip
import Lisplet.Proofs.Sources
import Lisplet.Proofs.Evaluation
import Lisplet.Proofs.Isolation
import Lisplet.Proofs.Provenance
import Lisplet.Proofs.Fuel
import Lisplet.Proofs.Output
import Lisplet.Proofs.Tasks
import Lisplet.Proofs.Concatenation
import Lisplet.Proofs.Registration
import Lisplet.Proofs.Lookup
import Lisplet.Proofs.RootScope
import Lisplet.Proofs.Balance
import Lisplet.Proofs.Tiling
import Lisplet.Proofs.Layout
import Lisplet.Proofs.Sequencing
import Lisplet.Proofs.Arithmetic
import Lisplet.Proofs.Division
import Lisplet.Proofs.Branches
import Lisplet.Proofs.Comparison
import Lisplet.Proofs.Parameters
import Lisplet.Proofs.Termination
import Lisplet.Proofs.Zipper
