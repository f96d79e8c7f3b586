import SumScript.Double.Bits
import SumScript.FileTree
import SumScript.Main
import SumScript.Proofs.CommandLine.Script
import SumScript.Proofs.CommandLine.Verbose
import SumScript.Proofs.Context.Chain
import SumScript.Proofs.Context.Check
import SumScript.Proofs.Context.Commute
import SumScript.Proofs.Context.Failure
import SumScript.Proofs.Context.Frame
import SumScript.Proofs.Context.Same
import SumScript.Proofs.Context.Simulation
import SumScript.Proofs.Context.Values
import SumScript.Proofs.Decimal.Literal
import SumScript.Proofs.Decimal.Shortest
import SumScript.Proofs.Double.Bits
import SumScript.Proofs.Double.Integral
import SumScript.Proofs.Double.Rounding
import SumScript.Proofs.Error.Messages
import SumScript.Proofs.Execute.Diagnostics
import SumScript.Proofs.Execute.Echo
import SumScript.Proofs.Execute.Exact
import SumScript.Proofs.Execute.Integral
import SumScript.Proofs.Execute.Joined
import SumScript.Proofs.Execute.Layout
import SumScript.Proofs.Execute.Logged
import SumScript.Proofs.Execute.OneLine
import SumScript.Proofs.Program.Agreement
import SumScript.Proofs.Program.Consumption
import SumScript.Proofs.Program.Equality
import SumScript.Proofs.Program.Source
import SumScript.Proofs.Program.Viable
import SumScript.Proofs.Source.Places
import SumScript.Proofs.Source.Recount
import SumScript.Proofs.Token.Joined
import SumScript.Proofs.Token.Lines
import SumScript.Proofs.Token.Positions
import SumScript.Proofs.Token.Reading
import SumScript.Proofs.Token.Stray
import SumScript.Proofs.Decimal.Fewest
import SumScript.Proofs.Decimal.Text
