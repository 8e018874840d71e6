import NodalAlgebra.Decimal.Double
import NodalAlgebra.Element.Json
import NodalAlgebra.Evaluate.Nodal
import NodalAlgebra.Expr.Kind
import NodalAlgebra.Expr.Shaped
import NodalAlgebra.Mesh.Grid
import NodalAlgebra.Mesh.Lemmas
import NodalAlgebra.Proofs.Acceptance
import NodalAlgebra.Proofs.DofLayout
import NodalAlgebra.Proofs.EditedRules
import NodalAlgebra.Proofs.ElementSpellings
import NodalAlgebra.Proofs.ErrorOrder
import NodalAlgebra.Proofs.ErrorReports
import NodalAlgebra.Proofs.Independence
import NodalAlgebra.Proofs.KernelAgreement
import NodalAlgebra.Proofs.LeafDiscretizations
import NodalAlgebra.Proofs.MeshHistory
import NodalAlgebra.Proofs.NodeFilling
import NodalAlgebra.Proofs.NodeReaders
import NodalAlgebra.Proofs.Overflow
import NodalAlgebra.Proofs.RowMajor
import NodalAlgebra.Rules.Standard
import NodalAlgebra.Scalar.Float
import NodalAlgebra.Space.Lemmas
import NodalAlgebra.Proofs.NodeOutcomes
import NodalAlgebra.Proofs.Transposition
import NodalAlgebra.Proofs.Broadcasting
import NodalAlgebra.Proofs.MatrixAlgebra
import NodalAlgebra.Proofs.Contractions
import NodalAlgebra.Proofs.InverseLaws
import NodalAlgebra.Proofs.MatrixParts
import NodalAlgebra.Proofs.ConformingGrids
import NodalAlgebra.Proofs.MeshValidity
import NodalAlgebra.Proofs.CornerNodes
import NodalAlgebra.Proofs.OperandOrder
