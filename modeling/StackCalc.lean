import StackCalc.Proofs.Calculator.Atomic
import StackCalc.Proofs.Calculator.Calling
import StackCalc.Proofs.Calculator.Configured
import StackCalc.Proofs.Calculator.Execute
import StackCalc.Proofs.Calculator.Incomplete
import StackCalc.Proofs.Calculator.Text
import StackCalc.Proofs.Calculator.Unmarked
import StackCalc.Proofs.Calculator.Unused
import StackCalc.Proofs.Config.Checking
import StackCalc.Proofs.Data.Record
import StackCalc.Proofs.Expr.Grammar
import StackCalc.Proofs.Expr.Matching
import StackCalc.Proofs.Machine.FirstMatch
import StackCalc.Proofs.Machine.Record
import StackCalc.Proofs.Machine.Tracing
import StackCalc.Proofs.Pattern.Inverse
import StackCalc.Proofs.Pattern.Literal
import StackCalc.Proofs.Pattern.Phases
import StackCalc.Proofs.Scope.Visibility
import StackCalc.Proofs.Stack.Substack
import StackCalc.Proofs.Value.Equivalence
import StackCalc.Proofs.Value.Readable
import StackCalc.Proofs.Wire.Bijection
import StackCalc.Proofs.Wire.Refusal
import StackCalc.Proofs.Wire.Replay
import StackCalc.Proofs.Wire.ShortestCode
import StackCalc.Proofs.Wire.Survival
import StackCalc.Proofs.Wire.Writable
