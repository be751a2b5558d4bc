import FunctionNaming.Syntax.Forest

/-!
Walks through a tree. A walk visits a node before its parts and the parts in the order of the
script, and does not go deeper than a fixed number of levels.
-/

namespace FunctionNaming.Forest

/-- How many levels a walk visits. -/
def maxWalkDepth : Nat := 500

/-- The nodes on the first `levels` levels of the tree below `id`, which itself is the first. -/
def walkWithin (f : Forest) : Nat → NodeId → List NodeId
  | 0, _ => []
  | levels + 1, id =>
    match f.shape? id with
    | some shape => id :: shape.children.flatMap (f.walkWithin levels)
    | none => []

/-- The nodes that a walk from `id` visits. -/
def walk (f : Forest) (id : NodeId) : List NodeId := f.walkWithin maxWalkDepth id

/-- The functions of any sort that a walk from `id` visits. -/
def functions (f : Forest) (id : NodeId) : List NodeId :=
  (f.walk id).filter fun n => (f.shape? n).any ShapeOf.isFunctionLike

/-- The texts of the identifiers that a walk from `id` visits. -/
def identifierTexts (f : Forest) (id : NodeId) : List String :=
  (f.walk id).filterMap fun n => f.identifierText? (some n)

/-- Whether a walk from `id` visits an identifier with the text `name`. -/
def mentions (f : Forest) (id : NodeId) (name : String) : Bool :=
  (f.identifierTexts id).contains name

end FunctionNaming.Forest
