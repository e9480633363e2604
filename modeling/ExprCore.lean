import ExprCore.Expr.Builder
import ExprCore.Frame.Family
import ExprCore.FunctionTable
import ExprCore.Proofs.CompoundElement
import ExprCore.Proofs.Dependence
import ExprCore.Proofs.ExactArithmetic
import ExprCore.Proofs.LenientPolicy
import ExprCore.Proofs.ReadsBeforeWrites
import ExprCore.Proofs.Expansion
import ExprCore.Proofs.FailedWrites
import ExprCore.Proofs.FloatText
import ExprCore.Proofs.FrameHistories
import ExprCore.Proofs.FunctionHistories
import ExprCore.Proofs.Grouping
import ExprCore.Proofs.Increments
import ExprCore.Proofs.Interning
import ExprCore.Proofs.NestedUpdate
import ExprCore.Proofs.NumberIndex
import ExprCore.Proofs.OperatorFailures
import ExprCore.Proofs.OverflowingLiterals
import ExprCore.Proofs.ReservedPosition
import ExprCore.Proofs.Sequences
import ExprCore.Proofs.TotalOrder
import ExprCore.Session
import ExprCore.Value.Text
