import FunctionNaming.Naming.Walk
import FunctionNaming.NameMap.Basic
import FunctionNaming.Path.Resolve

/-!
Naming with a map. Every function that has a path gets the name of its path in the map, or a new
short name that is put into the map. New names differ from all identifiers of the script. A
function that mentions the name recorded for it keeps none, since inside it the name would mean the
function.
-/

namespace FunctionNaming

/-- How far the naming of a script has come. -/
structure MappedNaming where
  forest : Forest
  map : NameMap
  generator : NameGenerator
  /-- The number of functions that have got a name. -/
  named : Nat

namespace MappedNaming

/-- Records a name for the path of `function` and gives it to the function. -/
def nameAs (s : MappedNaming) (used : List String) (function : NodeId) (path : Path) :
    MappedNaming :=
  let (name, map, generator) := s.map.record path s.generator used
  match s.forest.attachName? function name with
  | some forest => { forest, map, generator, named := s.named + 1 }
  | none => { s with map, generator }

/-- Whether the map has a name for `path` that `function` mentions. -/
def mentionsRecorded (s : MappedNaming) (function : NodeId) (path : Path) : Bool :=
  (s.map.name? path).any (s.forest.mentions function)

/-- Names one function, where the names in `used` are taken by identifiers. -/
def step (used : List String) (s : MappedNaming) (function : NodeId) : MappedNaming :=
  match s.forest.pathOf function with
  | .error _ => s
  | .ok path => if s.mentionsRecorded function path then s else s.nameAs used function path

/-- Names the functions below `root`, where `seed` holds the names of earlier runs. -/
def run (o : NamingOptions) (forest : Forest) (root : NodeId) (seed : NameMap) : MappedNaming :=
  (forest.functions root).foldl (step (forest.identifierTexts root))
    ⟨forest, seed, .ofOptions o, 0⟩

end MappedNaming

end FunctionNaming
