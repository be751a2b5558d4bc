import FunctionNaming.Naming.Options
import FunctionNaming.Naming.Walk
import FunctionNaming.Path.Resolve

/-!
Naming without a map. Every function that has a path gets a name that spells it, unless the
function mentions that name.
-/

namespace FunctionNaming

/-- How a character of a path is spelled in a name. -/
def spellChar (c : Char) : Char :=
  if c = '.' then '$' else if isWordPart c then c else '_'

/-- The characters of a path spelled so that they have the shape of a word. -/
def spellPath (cs : List Char) : List Char :=
  match cs.map spellChar with
  | [] => []
  | c :: cs => if isWordStart c then c :: cs else '_' :: c :: cs

/-- The name that spells a path. The empty path has none, and a name that is reserved is lengthened
by a dollar sign. -/
def NamingOptions.spelledName? (o : NamingOptions) (path : Path) : Option String :=
  if path.text.isEmpty then none
  else
    let name := String.ofList (spellPath path.text.toList)
    some (if o.isReserved name then name.push '$' else name)

/-- How far the naming of a script has come. -/
structure SpelledNaming where
  forest : Forest
  /-- The number of functions that have got a name. -/
  named : Nat
  /-- The number of bytes of their names. -/
  bytes : Nat

namespace SpelledNaming

/-- Names one function. -/
def step (o : NamingOptions) (s : SpelledNaming) (function : NodeId) : SpelledNaming :=
  match (s.forest.pathOf function).toOption.bind o.spelledName? with
  | none => s
  | some name =>
    if s.forest.mentions function name then s
    else
      match s.forest.attachName? function name with
      | some forest =>
        { forest, named := s.named + 1, bytes := s.bytes + name.utf8ByteSize }
      | none => s

/-- Names the functions below `root`. -/
def run (o : NamingOptions) (forest : Forest) (root : NodeId) : SpelledNaming :=
  (forest.functions root).foldl (step o) ⟨forest, 0, 0⟩

end SpelledNaming

end FunctionNaming
