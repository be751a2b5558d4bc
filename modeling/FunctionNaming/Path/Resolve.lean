import FunctionNaming.Path.Basic
import FunctionNaming.Print.Node

/-!
The path of a function, found by looking at what surrounds it. A function has a path when it is the
initial value of a name, is assigned to a name or a member, or is a value in an object literal that
is assigned; parentheses around any of these do not matter. A function that has none has a reason
for it.
-/

namespace FunctionNaming

/-- Why a function has no path. -/
inductive SkipReason where
  /-- It is a declaration, an arrow, a method or no function at all. -/
  | notAFunctionExpression
  | alreadyNamed
  /-- Nothing around it binds it. -/
  | noNamingContext
  /-- It is a value in an object literal that initialises a variable. -/
  | declarationObjectLiteral
  /-- It is assigned to something that is neither a name nor a member. -/
  | unsupportedTarget
  | tooDeep
  deriving DecidableEq, Repr

/-- The wording of a reason. -/
def SkipReason.message : SkipReason → String
  | notAFunctionExpression => "not a function expression"
  | alreadyNamed => "function is already named"
  | noNamingContext => "no naming context"
  | declarationObjectLiteral => "object literal in a declaration"
  | unsupportedTarget => "unsupported assignment target"
  | tooDeep => "qualified name too deep"

/-- What an expression is to the node around it. -/
inductive Place where
  /-- The initial value of a variable. -/
  | declaration (name : Slot)
  /-- The default value of a parameter or of a part of a pattern. -/
  | binding (name : Slot)
  /-- What is assigned to a target. -/
  | assignment (target : Slot)
  /-- The value of a member of an object literal. -/
  | member (property : NodeId)
  | other
  deriving DecidableEq, Repr

namespace Forest

/-- How many segments a chain of accesses may have, and how many keys may lead to a function. -/
def maxPathLength : Nat := 100

/-- The place of an expression, seen through parentheses around it. -/
def placeOf (f : Forest) (expression : NodeId) : Place :=
  let outer := f.outermostParentheses expression
  match f.parent? outer with
  | none => .other
  | some parent =>
    match f.shape? parent with
    | some (.declarator name value) => if value = some outer then .declaration name else .other
    | some (.parameter _ name value) => if value = some outer then .binding name else .other
    | some (.patternElement _ _ name value) =>
      if value = some outer then .binding name else .other
    | some (.binary left .assign right) =>
      if right = some outer then .assignment left else .other
    | some (.propertyAssignment _ value) => if value = some outer then .member parent else .other
    | _ => .other

/-- The text of an expression as part of a path. -/
def pathText (f : Forest) : Slot → String
  | none => ""
  | some id => f.print .path id

/-! ### Targets of assignments -/

/-- The segment of an argument in brackets. A string names a property. -/
def argumentSegment (f : Forest) (argument : Slot) : Segment :=
  match f.stringValue? (f.skipParentheses argument) with
  | some value => .key value
  | none => .computed (f.pathText argument) .bracketed

/-- The segments of a chain of accesses, at most `limit` of them. What the chain begins with is one
of them: a name, `this`, or the text of any other expression. -/
def chainSegments (f : Forest) : Nat → Slot → Except SkipReason (List Segment)
  | 0, _ => .error .tooDeep
  | limit + 1, link =>
    match f.shapeAt? link with
    | none => .error .unsupportedTarget
    | some (.propertyAccess object name) =>
      match f.identifierText? name with
      | none => .error .unsupportedTarget
      | some text => do return (← f.chainSegments limit object) ++ [.name text]
    | some (.elementAccess object argument) => do
      return (← f.chainSegments limit object) ++ [f.argumentSegment argument]
    | some (.identifier text) => .ok [.name text]
    | some .thisExpression => .ok [.name "this"]
    | some _ => .ok [.computed (f.pathText link) .bracketed]

/-- The segments of what is assigned to: a name or a chain of accesses. -/
def targetSegments (f : Forest) (target : Slot) : Except SkipReason (List Segment) :=
  let inner := f.skipParentheses target
  match f.shapeAt? inner with
  | some (.identifier text) => .ok [.name text]
  | some (.propertyAccess _ _) | some (.elementAccess _ _) =>
    f.chainSegments maxPathLength inner
  | _ => .error .unsupportedTarget

/-! ### Names and keys -/

/-- The segments of what is bound. Only a name has some, a pattern has none. -/
def bindingSegments (f : Forest) (name : Slot) : Except SkipReason (List Segment) :=
  match f.identifierText? name with
  | some text => .ok [.name text]
  | none => .error .noNamingContext

/-- The segment of the key of a member. -/
def keySegment (f : Forest) (name : Slot) : Except SkipReason Segment :=
  match f.shapeAt? name with
  | some (.identifier text) => .ok (.name text)
  | some (.stringLiteral _ value) => .ok (.key value)
  | some (.numberLiteral text) => .ok (.computed text .bracketed)
  | some (.computedName expression) =>
    match f.stringValue? (f.skipParentheses expression) with
    | some value => .ok (.key value)
    | none => .ok (.computed (f.pathText expression) .dotted)
  | _ => .error .noNamingContext

/-- The segments that lead to the member `property` of an object literal: those of the target that
the outermost literal is assigned to, then the keys from the outside in. The keys further in than
`property` are known already, and at most `limit` more are taken. -/
def memberSegments (f : Forest) : Nat → NodeId → List Segment → Except SkipReason (List Segment)
  | 0, _, _ => .error .tooDeep
  | limit + 1, property, inner =>
    match f.shape? property with
    | some (.propertyAssignment name _) => do
      let keys := (← f.keySegment name) :: inner
      match f.parent? property with
      | none => .error .noNamingContext
      | some literal =>
        match f.placeOf literal with
        | .member outer => f.memberSegments limit outer keys
        | .assignment target => return (← f.targetSegments target) ++ keys
        | .declaration _ => .error .declarationObjectLiteral
        | .binding _ | .other => .error .noNamingContext
    | _ => .error .noNamingContext

/-! ### Functions -/

/-- The segments of the place of an expression. -/
def segmentsOf (f : Forest) (expression : NodeId) : Except SkipReason (List Segment) :=
  match f.placeOf expression with
  | .declaration name | .binding name => f.bindingSegments name
  | .assignment target => f.targetSegments target
  | .member property => f.memberSegments maxPathLength property []
  | .other => .error .noNamingContext

/-- The path of the function expression `function`, or the reason why it has none. -/
def pathOf (f : Forest) (function : NodeId) : Except SkipReason Path :=
  match f.shape? function with
  | some (.function .expression parts) =>
    if parts.name.isSome then .error .alreadyNamed
    else do
      match Path.ofSegments? (← f.segmentsOf function) with
      | some path => return path
      | none => .error .noNamingContext
  | _ => .error .notAFunctionExpression

end Forest

end FunctionNaming
