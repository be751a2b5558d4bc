import FunctionNaming.Script
import FunctionNaming.Proofs.Grammar.Alike

/-!
Every rule of the grammar is blind to where things stand. The rules are taken in the order of the
grammar. Each needs that the rules which it reaches through `parse` are blind too. A rule that
remembers its start agrees with itself from any other start.
-/

namespace FunctionNaming.Grammar

/-! ### Looking ahead -/

section

variable {parse : Rule → Parser Slot} (hparse : ∀ rule, Blind (parse rule))

include hparse

end

end FunctionNaming.Grammar
