import FunctionNaming.Json.Quoted

/-!
Writing JSON: lists, and objects in two layouts, with the members on one line or on a line each.
-/

namespace FunctionNaming.Json

/-- What stands between the signs of an object that has members. -/
structure Layout where
  afterBrace : List Char
  afterComma : List Char
  afterColon : List Char
  beforeBrace : List Char

/-- No blanks at all. -/
def Layout.oneLine : Layout := ⟨[], [], [], []⟩

/-- A line for each member, indented by two blanks. -/
def Layout.indented : Layout := ⟨"\n  ".toList, "\n  ".toList, " ".toList, "\n".toList⟩

/-- Texts that are separated by commas. -/
def commaSeparated (afterComma : List Char) : List (List Char) → List Char
  | [] => []
  | [text] => text
  | text :: texts => text ++ ',' :: afterComma ++ commaSeparated afterComma texts

/-- A member of an object, whose value is given as it is written. -/
def member (layout : Layout) (key : String) (value : List Char) : List Char :=
  quoted key ++ ':' :: layout.afterColon ++ value

/-- An object with these members. -/
def object (layout : Layout) : List (List Char) → List Char
  | [] => ['{', '}']
  | members =>
    '{' :: layout.afterBrace ++ commaSeparated layout.afterComma members ++
      layout.beforeBrace ++ ['}']

/-- A list of strings on one line. -/
def stringList (texts : List String) : List Char :=
  '[' :: commaSeparated [] (texts.map quoted) ++ [']']

end FunctionNaming.Json
