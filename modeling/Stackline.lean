import Stackline.Files.Tree
import Stackline.Main
import Stackline.Proofs.Machine.Activation
import Stackline.Proofs.Machine.Bounds
import Stackline.Proofs.Machine.Lifetime
import Stackline.Proofs.Program.Code
import Stackline.Proofs.Scope.History
import Stackline.Proofs.Session.Calls
import Stackline.Proofs.Session.Cleanup
import Stackline.Proofs.Session.Faults
import Stackline.Proofs.Machine.Effect
import Stackline.Proofs.Machine.Failure
import Stackline.Proofs.Text.Lines
import Stackline.Proofs.Program.Source
import Stackline.Proofs.Scope.Lookup
import Stackline.Proofs.Scope.Reuse
import Stackline.Proofs.Machine.Outcome
import Stackline.Proofs.Machine.Tracing
import Stackline.Proofs.Machine.Termination
import Stackline.Proofs.Session.Strings
import Stackline.Proofs.Session.Startup
import Stackline.Proofs.Command.Batch
import Stackline.Proofs.Program.Loading
import Stackline.Proofs.Decimal.Integer
import Stackline.Proofs.Machine.Call
import Stackline.Proofs.Program.Grammar
import Stackline.Proofs.Scope.Bindings
import Stackline.Proofs.Value.Natural
import Stackline.Proofs.Machine.Solo
import Stackline.Proofs.Session.Summation
import Stackline.Proofs.Scope.Writes
import Stackline.Proofs.Program.Listing
import Stackline.Proofs.Value.Exact
import Stackline.Proofs.Value.Repetition
import Stackline.Proofs.Value.Extremes
import Stackline.Proofs.Value.Conversion
import Stackline.Proofs.Decimal.Numeral
import Stackline.Proofs.Value.Literal
import Stackline.Proofs.Files.Tree
import Stackline.Proofs.Program.Assembling
import Stackline.Proofs.Scope.Slots
import Stackline.Proofs.Session.Unwinding
import Stackline.Proofs.Machine.Constants
import Stackline.Proofs.Command.Assembling
import Stackline.Proofs.Machine.Operands
import Stackline.Proofs.Scope.Insertion
