import SpectralAlgebra.Encoding
import SpectralAlgebra.Session
import SpectralAlgebra.Proofs.Construction
import SpectralAlgebra.Proofs.Meaning
import SpectralAlgebra.Proofs.Numbering
import SpectralAlgebra.Proofs.Origins
import SpectralAlgebra.Proofs.Placement
import SpectralAlgebra.Proofs.Reports
import SpectralAlgebra.Proofs.Reconstruction
import SpectralAlgebra.Proofs.Shapes
import SpectralAlgebra.Proofs.Soundness
import SpectralAlgebra.Proofs.Chains
import SpectralAlgebra.Proofs.Inputs
import SpectralAlgebra.Proofs.Regrouping
import SpectralAlgebra.Proofs.Reading
import SpectralAlgebra.Proofs.Overwriting
import SpectralAlgebra.Proofs.LeafKinds
import SpectralAlgebra.Proofs.Templates
import SpectralAlgebra.Proofs.Acyclicity
import SpectralAlgebra.Proofs.Rendering
import SpectralAlgebra.Proofs.Caching
import SpectralAlgebra.Proofs.Completeness
import SpectralAlgebra.Proofs.Workspace
import SpectralAlgebra.Proofs.Freezing
import SpectralAlgebra.Proofs.Lockstep
import SpectralAlgebra.Proofs.Interpreter
import SpectralAlgebra.Proofs.Routing
import SpectralAlgebra.Proofs.Equations
import SpectralAlgebra.Proofs.Depths
import SpectralAlgebra.Proofs.Exact
import SpectralAlgebra.Proofs.Naming
import SpectralAlgebra.Proofs.Visiting
import SpectralAlgebra.Proofs.Rekeying
import SpectralAlgebra.Proofs.Leniency
import SpectralAlgebra.Proofs.Introspection
import SpectralAlgebra.Proofs.Reversal
import SpectralAlgebra.Proofs.FieldOrder
import SpectralAlgebra.Proofs.Summaries
import SpectralAlgebra.Proofs.Lanes
