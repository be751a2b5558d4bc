import FunctionNaming.Main
import FunctionNaming.CommandLine.LogFormat
import FunctionNaming.Proofs.CommandLine.Writes
import FunctionNaming.Proofs.Naming.Renaming
import FunctionNaming.Proofs.Naming.DocumentOrder
import FunctionNaming.Proofs.Syntax.Growth
import FunctionNaming.Proofs.Path.Labels
import FunctionNaming.Proofs.Grammar.Complete
import FunctionNaming.Proofs.Grammar.Outline
import FunctionNaming.Proofs.Grammar.Halts
import FunctionNaming.Proofs.Grammar.Precedence
import FunctionNaming.Proofs.Print.RoundTrip
import FunctionNaming.Proofs.Token.Strings
import FunctionNaming.Proofs.Grammar.Reserved
import FunctionNaming.Proofs.Grammar.LoopHead
import FunctionNaming.Proofs.Naming.Enumeration
import FunctionNaming.Proofs.Naming.Least
import FunctionNaming.Proofs.Naming.Idempotent
import FunctionNaming.Proofs.Naming.Reached
import FunctionNaming.Proofs.Path.ReadBack
import FunctionNaming.Proofs.Path.Depth
import FunctionNaming.Proofs.NameMap.LineSet
import FunctionNaming.Proofs.Text.Lines
import FunctionNaming.Proofs.Grammar.Faults
import FunctionNaming.Proofs.Grammar.LookAhead
import FunctionNaming.Proofs.Grammar.NamedFunction
