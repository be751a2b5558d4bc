import FunctionNaming.Syntax.Shape

/-!
A forest holds the nodes of a script, numbered in the order in which they were added. A node is
added after its parts and becomes their parent, so a part has a smaller number than the node that
was built from it; only the names that functions receive later come after their functions.

What a reader of a forest may rely on is said by the lemmas beside the two operations that change
one: `add` appends a node and moves parents only, and `attachName?` appends one identifier and
changes nothing but the name of one function.
-/

namespace FunctionNaming

/-- A shape with its place in the script, counted in bytes, and its parent. -/
structure Node where
  start : Nat
  stop : Nat
  parent : Slot
  shape : Shape
  deriving DecidableEq, Repr

/-- The nodes of a script. -/
structure Forest where
  nodes : Array Node
  deriving DecidableEq, Repr

namespace Forest

/-- The forest without nodes. -/
def empty : Forest := ⟨#[]⟩

/-- The number of nodes, which is also the number that the next node will have. -/
def size (f : Forest) : Nat := f.nodes.size

/-- The node with a number. -/
def node? (f : Forest) (id : NodeId) : Option Node := f.nodes[id]?

/-- The shape of a node. -/
def shape? (f : Forest) (id : NodeId) : Option Shape := (f.node? id).map Node.shape

/-- The shape in a place, if there is a node in it. -/
def shapeAt? (f : Forest) (slot : Slot) : Option Shape := slot.bind f.shape?

/-- The parent of a node. -/
def parent? (f : Forest) (id : NodeId) : Slot := (f.node? id).bind Node.parent

/-- The parts of a node in the order of the script. -/
def children (f : Forest) (id : NodeId) : List NodeId :=
  match f.shape? id with
  | some shape => shape.children
  | none => []

/-- The text of an identifier. -/
def identifierText? (f : Forest) (slot : Slot) : Option String :=
  match f.shapeAt? slot with
  | some (.identifier text) => some text
  | _ => none

/-- The characters that a string literal denotes. -/
def stringValue? (f : Forest) (slot : Slot) : Option String :=
  match f.shapeAt? slot with
  | some (.stringLiteral _ value) => some value
  | _ => none

theorem lt_size_of_shape? {f : Forest} {id : NodeId} {shape : Shape}
    (h : f.shape? id = some shape) : id < f.size := by
  obtain ⟨node, hnode, -⟩ := Option.map_eq_some_iff.1 h
  exact (Array.getElem?_eq_some_iff.1 hnode).1

theorem shape?_eq_none_iff {f : Forest} {id : NodeId} : f.shape? id = none ↔ f.size ≤ id := by
  rw [shape?, Option.map_eq_none_iff, node?, Array.getElem?_eq_none_iff]
  rfl

/-! ### Growing -/

/-- Makes `parent` the parent of `child`. -/
def setParent (f : Forest) (child parent : NodeId) : Forest :=
  ⟨f.nodes.modify child fun n => { n with parent := some parent }⟩

@[simp] theorem size_setParent (f : Forest) (child parent : NodeId) :
    (f.setParent child parent).size = f.size := by
  simp [setParent, size]

@[simp] theorem shape?_setParent (f : Forest) (child parent id : NodeId) :
    (f.setParent child parent).shape? id = f.shape? id := by
  rw [shape?, shape?, node?, node?, setParent, Array.getElem?_modify]
  split
  · cases f.nodes[id]? <;> rfl
  · rfl

/-- Makes `parent` the parent of each of the `children`. -/
def setParents (f : Forest) (parent : NodeId) (children : List NodeId) : Forest :=
  children.foldl (fun g child => g.setParent child parent) f

@[simp] theorem size_setParents (f : Forest) (parent : NodeId) (children : List NodeId) :
    (f.setParents parent children).size = f.size := by
  induction children generalizing f with
  | nil => rfl
  | cons c cs ih => simpa [setParents] using ih (f.setParent c parent)

@[simp] theorem shape?_setParents (f : Forest) (parent : NodeId) (children : List NodeId)
    (id : NodeId) : (f.setParents parent children).shape? id = f.shape? id := by
  induction children generalizing f with
  | nil => rfl
  | cons c cs ih => exact (ih (f.setParent c parent)).trans (shape?_setParent ..)

/-- Adds a node under the number `f.size` and makes it the parent of its parts. -/
def add (f : Forest) (start stop : Nat) (shape : Shape) : Forest :=
  let id := f.size
  setParents ⟨f.nodes.push ⟨start, stop, none, shape⟩⟩ id shape.children

@[simp] theorem size_add (f : Forest) (start stop : Nat) (shape : Shape) :
    (f.add start stop shape).size = f.size + 1 := by
  rw [add, size_setParents]
  simp [size]

theorem shape?_push (nodes : Array Node) (node : Node) (id : NodeId) :
    (Forest.mk (nodes.push node)).shape? id =
      if id = nodes.size then some node.shape else (Forest.mk nodes).shape? id := by
  rw [shape?, shape?, node?, node?, Array.getElem?_push]
  split <;> rfl

theorem shape?_add (f : Forest) (start stop : Nat) (shape : Shape) (id : NodeId) :
    (f.add start stop shape).shape? id = if id = f.size then some shape else f.shape? id := by
  rw [add, shape?_setParents, shape?_push]
  rfl

@[simp] theorem shape?_add_self (f : Forest) (start stop : Nat) (shape : Shape) :
    (f.add start stop shape).shape? f.size = some shape := by
  rw [shape?_add, if_pos rfl]

/-- A new node changes no other. -/
theorem shape?_add_of_some {f : Forest} {id : NodeId} {shape : Shape}
    (h : f.shape? id = some shape) (start stop : Nat) (shape' : Shape) :
    (f.add start stop shape').shape? id = some shape := by
  rw [shape?_add, if_neg (Nat.ne_of_lt (lt_size_of_shape? h)), h]

/-- Gives the name `name` to the function expression or declaration `function`, as a new identifier
of no length at the place of the function. There is no result if the node is not one or has a name
already. -/
def attachName? (f : Forest) (function : NodeId) (name : String) : Option Forest :=
  match f.node? function with
  | some ⟨start, _, _, .function role parts⟩ =>
    if role = .arrow ∨ parts.name.isSome then none
    else
      let id := f.size
      let f' := (f.add start start (.identifier name)).setParent id function
      some ⟨f'.nodes.modify function fun n =>
        { n with shape := .function role { parts with name := some id } }⟩
  | _ => none

/-! ### Parentheses

A chain of parentheses visits each node at most once, so no chain is longer than the forest. -/

/-- Follows at most `limit` pairs of parentheses inwards. -/
def skipParenthesesWithin (f : Forest) : Nat → NodeId → Slot
  | 0, id => some id
  | limit + 1, id =>
    match f.shape? id with
    | some (.parenthesized (some inner)) => f.skipParenthesesWithin limit inner
    | some (.parenthesized none) => none
    | _ => some id

/-- The node that the parentheses around it, if any, enclose. Nothing is enclosed by parentheses
whose inside is missing. -/
def skipParentheses (f : Forest) (slot : Slot) : Slot :=
  slot.bind (f.skipParenthesesWithin f.size)

/-- Follows at most `limit` pairs of parentheses outwards. -/
def outermostWithin (f : Forest) : Nat → NodeId → NodeId
  | 0, id => id
  | limit + 1, id =>
    match f.parent? id with
    | some parent =>
      match f.shape? parent with
      | some (.parenthesized _) => f.outermostWithin limit parent
      | _ => id
    | none => id

/-- The outermost parentheses around a node, or the node itself if there are none. -/
def outermostParentheses (f : Forest) (id : NodeId) : NodeId := f.outermostWithin f.size id

end Forest

end FunctionNaming
