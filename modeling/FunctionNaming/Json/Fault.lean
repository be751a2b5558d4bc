/-!
What can be wrong with a text that should hold a value in JSON.
-/

namespace FunctionNaming.Json

/-- Why a text cannot be read. -/
inductive Fault where
  /-- The text ends inside the value or before it. -/
  | endOfInput
  /-- The text is not JSON. -/
  | malformed
  /-- The text is JSON, but its value is not of the kind that is asked for. -/
  | mismatch
  deriving DecidableEq, Repr

namespace Fault

/-- The name of the class to which a fault belongs. -/
def category : Fault → String
  | endOfInput => "Eof"
  | malformed => "Syntax"
  | mismatch => "Data"

/-- The wording of a fault. -/
def message (f : Fault) : String := "<json " ++ f.category ++ ">"

end Fault

end FunctionNaming.Json
