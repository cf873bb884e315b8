import Equate.Main
import Equate.Proofs.Binary64.Nearest
import Equate.Proofs.Binary64.Order
import Equate.Proofs.Binary64.Rounding
import Equate.Proofs.Binary64.Whole
import Equate.Proofs.CommandLine.Origin
import Equate.Proofs.Decimal.Printed
import Equate.Proofs.Decimal.Safety
import Equate.Proofs.Decimal.Shift
import Equate.Proofs.Decimal.Spelling
import Equate.Proofs.Decimal.Terms
import Equate.Proofs.Evaluation.Extremes
import Equate.Proofs.Evaluation.Reporting
import Equate.Proofs.Expr.Completeness
import Equate.Proofs.Expr.Groups
import Equate.Proofs.Expr.Naming
import Equate.Proofs.Expr.Once
import Equate.Proofs.Expr.Simplification
import Equate.Proofs.Function.Assemblies
import Equate.Proofs.Operator.Comparison
import Equate.Proofs.Operator.Equality
import Equate.Proofs.Operator.Faults
import Equate.Proofs.Operator.Modular
import Equate.Proofs.Operator.ReadBack
import Equate.Proofs.Operator.Readable
import Equate.Proofs.Operator.Results
import Equate.Proofs.Operator.Shifts
import Equate.Proofs.Operator.Transitivity
import Equate.Proofs.Script.Definitions
import Equate.Proofs.Script.Integers
import Equate.Proofs.Script.Renaming
import Equate.Proofs.Script.Returns
import Equate.Proofs.Session.Persistence
import Equate.Proofs.Statement.Blame
import Equate.Proofs.Statement.Lines
import Equate.Proofs.Token.Lexemes
import Equate.Proofs.Token.Quoting
import Equate.Proofs.Token.Refusals
import Equate.Proofs.Value.Order
import Equate.Proofs.Workspace.Isolation
import Equate.Proofs.Workspace.Renaming
import Equate.Workspace
