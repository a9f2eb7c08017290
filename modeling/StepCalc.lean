import StepCalc.Command.Directory
import StepCalc.Main
import StepCalc.Session.Drawing
import StepCalc.Proofs.Expr.Arithmetic
import StepCalc.Proofs.Expr.Display
import StepCalc.Proofs.Expr.InOrder
import StepCalc.Proofs.Expr.Parentheses
import StepCalc.Proofs.Expr.RoundTrip
import StepCalc.Proofs.Expr.SpanText
import StepCalc.Proofs.Expr.Unambiguous
import StepCalc.Proofs.Grammar.EarliestError
import StepCalc.Proofs.Grammar.Layout
import StepCalc.Proofs.Grammar.Reuse
import StepCalc.Proofs.History.Bookkeeping
import StepCalc.Proofs.History.Distinct
import StepCalc.Proofs.History.Footprint
import StepCalc.Proofs.History.Navigation
import StepCalc.Proofs.History.Outermost
import StepCalc.Proofs.History.ReadingBack
import StepCalc.Proofs.History.Residual
import StepCalc.Proofs.Session.Simulation
import StepCalc.Proofs.Token.Accounting
import StepCalc.Proofs.Token.Spacing
import StepCalc.Proofs.Token.Streaming
import StepCalc.Proofs.View.LineNumbers
import StepCalc.Proofs.View.SourceLines
