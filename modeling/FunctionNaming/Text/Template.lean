/-!
Message templates. A template marks the place of its argument number `i` by that number between
braces. Arguments are put in one after the other, each into the result of the one before, so an
argument that itself contains the mark of a later one is filled in turn.
-/

namespace FunctionNaming.Text

/-- Puts `new` in the place of every occurrence of `old`, going from left to right; occurrences do
not overlap. The first argument counts the characters that still belong to an occurrence already
replaced. -/
def replaceFrom (old new : List Char) : Nat → List Char → List Char
  | _, [] => []
  | pending + 1, _ :: cs => replaceFrom old new pending cs
  | 0, c :: cs =>
    if old.isPrefixOf (c :: cs) then new ++ replaceFrom old new (old.length - 1) cs
    else c :: replaceFrom old new 0 cs

/-- Puts `new` in the place of every occurrence of `old`. -/
def replaceAll (old new cs : List Char) : List Char := replaceFrom old new 0 cs

/-- The mark of argument `i` in a template. -/
def hole (i : Nat) : List Char := '{' :: (toString i).toList ++ ['}']

/-- Fills the holes from number `i` on with `arguments`. -/
def fillFrom (i : Nat) (text : List Char) : List String → List Char
  | [] => text
  | a :: as => fillFrom (i + 1) (replaceAll (hole i) a.toList text) as

/-- Fills the holes of `template` with `arguments`, the first of which has number zero. -/
def fill (template : String) (arguments : List String) : String :=
  String.ofList (fillFrom 0 template.toList arguments)

end FunctionNaming.Text
