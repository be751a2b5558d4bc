import FunctionNaming.Text.Blank

/-!
How messages about the work of the program are laid out.
-/

namespace FunctionNaming

/-- A layout of messages. -/
inductive LogFormat where
  | text
  | tree
  | json
  deriving DecidableEq, Repr

/-- The layout that a user asks for, in letters of any case and with blanks around them. Every
other text asks for plain lines. -/
def LogFormat.ofText (value : String) : LogFormat :=
  match (String.ofList (Text.trim value.toList)).toLower with
  | "tree" => .tree
  | "json" => .json
  | _ => .text

end FunctionNaming
