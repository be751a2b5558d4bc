import FunctionNaming.Token.Kind

/-!
The syntactic shapes that a script is made of. What stands for the parts of a shape is left open: in
a forest these are the numbers of other nodes. A part that may be missing, because the grammar lets
it be or because the script is ill-formed, is optional. A list has no missing members.
-/

namespace FunctionNaming

/-- The number of a node in its forest. -/
abbrev NodeId := Nat

/-- A place for a part that may be missing. -/
abbrev Slot := Option NodeId

/-- The word that opens a list of variables. -/
inductive VariableKeyword where
  | var | let | const
  deriving DecidableEq, Repr

/-- How a function stands in the script. -/
inductive FunctionRole where
  | declaration | expression | arrow
  deriving DecidableEq, Repr

/-- How a class stands in the script. -/
inductive ClassRole where
  | declaration | expression
  deriving DecidableEq, Repr

/-- Whether an accessor reads or writes its property. -/
inductive AccessorRole where
  | getter | setter
  deriving DecidableEq, Repr

/-- Whether a pattern takes apart an object or an array. -/
inductive PatternRole where
  | object | array
  deriving DecidableEq, Repr

/-- The parts of a function that is a declaration, an expression or an arrow. The body of an arrow
may be an expression; any other body is a block. -/
structure FunctionParts (ν : Type) where
  isAsync : Bool
  isGenerator : Bool
  name : Option ν
  parameters : List ν
  body : Option ν
  deriving DecidableEq, Repr

/-- What a node is and which parts it has. -/
inductive ShapeOf (ν : Type) where
  | script (statements : List ν) (file : String)
  -- statements
  | variableStatement (list : Option ν)
  | variableList (keyword : VariableKeyword) (declarators : List ν)
  | declarator (name initializer : Option ν)
  | function (role : FunctionRole) (parts : FunctionParts ν)
  | classLike (role : ClassRole) (name heritage : Option ν) (members : List ν)
  | block (statements : List ν)
  | expressionStatement (expression : Option ν)
  | returnStatement (expression : Option ν)
  | throwStatement (expression : Option ν)
  | ifStatement (condition consequent alternative : Option ν)
  | whileStatement (condition body : Option ν)
  | forStatement (initializer condition increment body : Option ν)
  | emptyStatement
  | exportDefault (exported : Option ν)
  | exportDeclaration (declaration : Option ν)
  -- names and literals
  | identifier (text : String)
  | stringLiteral (quote : Char) (value : String)
  | numberLiteral (text : String)
  | trueLiteral | falseLiteral | nullLiteral
  | thisExpression | superExpression
  | arrayLiteral (elements : List ν)
  | objectLiteral (members : List ν)
  | hole
  -- members of object literals and classes
  | propertyAssignment (name value : Option ν)
  | shorthandProperty (name : Option ν)
  | spread (expression : Option ν)
  | computedName (expression : Option ν)
  | method (isStatic isAsync isGenerator : Bool) (name : Option ν) (parameters : List ν)
      (body : Option ν)
  | accessor (role : AccessorRole) (isStatic : Bool) (name : Option ν) (parameters : List ν)
      (body : Option ν)
  | classConstructor (parameters : List ν) (body : Option ν)
  | classField (isStatic : Bool) (name initializer : Option ν)
  -- bindings
  | parameter (isRest : Bool) (name initializer : Option ν)
  | pattern (role : PatternRole) (elements : List ν)
  | patternElement (isRest : Bool) (property name initializer : Option ν)
  -- operators
  | propertyAccess (object name : Option ν)
  | elementAccess (object argument : Option ν)
  | call (callee : Option ν) (arguments : List ν)
  | new (callee : Option ν) (arguments : Option (List ν))
  | binary (left : Option ν) (operator : TokenKind) (right : Option ν)
  | prefixed (operator : TokenKind) (operand : Option ν)
  | postfixed (operator : TokenKind) (operand : Option ν)
  | conditional (condition whenTrue whenFalse : Option ν)
  | parenthesized (expression : Option ν)
  | yieldExpression (delegates : Bool) (expression : Option ν)
  deriving DecidableEq, Repr

/-- A shape whose parts are nodes of a forest. -/
abbrev Shape := ShapeOf NodeId

namespace ShapeOf

variable {ν : Type}

/-- The parts of a shape in the order of the script. -/
def children : ShapeOf ν → List ν
  | script statements _ => statements
  | variableStatement list => list.toList
  | variableList _ declarators => declarators
  | declarator name initializer => name.toList ++ initializer.toList
  | function _ parts => parts.name.toList ++ parts.parameters ++ parts.body.toList
  | classLike _ name heritage members => name.toList ++ heritage.toList ++ members
  | block statements => statements
  | expressionStatement expression => expression.toList
  | returnStatement expression => expression.toList
  | throwStatement expression => expression.toList
  | ifStatement condition consequent alternative =>
    condition.toList ++ consequent.toList ++ alternative.toList
  | whileStatement condition body => condition.toList ++ body.toList
  | forStatement initializer condition increment body =>
    initializer.toList ++ condition.toList ++ increment.toList ++ body.toList
  | emptyStatement => []
  | exportDefault exported => exported.toList
  | exportDeclaration declaration => declaration.toList
  | identifier _ | stringLiteral _ _ | numberLiteral _ => []
  | trueLiteral | falseLiteral | nullLiteral | thisExpression | superExpression | hole => []
  | arrayLiteral elements => elements
  | objectLiteral members => members
  | propertyAssignment name value => name.toList ++ value.toList
  | shorthandProperty name => name.toList
  | spread expression => expression.toList
  | computedName expression => expression.toList
  | method _ _ _ name parameters body => name.toList ++ parameters ++ body.toList
  | accessor _ _ name parameters body => name.toList ++ parameters ++ body.toList
  | classConstructor parameters body => parameters ++ body.toList
  | classField _ name initializer => name.toList ++ initializer.toList
  | parameter _ name initializer => name.toList ++ initializer.toList
  | pattern _ elements => elements
  | patternElement _ property name initializer =>
    property.toList ++ name.toList ++ initializer.toList
  | propertyAccess object name => object.toList ++ name.toList
  | elementAccess object argument => object.toList ++ argument.toList
  | call callee arguments => callee.toList ++ arguments
  | new callee arguments => callee.toList ++ arguments.getD []
  | binary left _ right => left.toList ++ right.toList
  | prefixed _ operand => operand.toList
  | postfixed _ operand => operand.toList
  | conditional condition whenTrue whenFalse =>
    condition.toList ++ whenTrue.toList ++ whenFalse.toList
  | parenthesized expression => expression.toList
  | yieldExpression _ expression => expression.toList

/-- Whether the shape is a name that makes a member the constructor of its class. -/
def namesConstructor : ShapeOf ν → Bool
  | identifier text => text == "constructor"
  | stringLiteral _ value => value == "constructor"
  | _ => false

/-- Whether the shape is a function of any sort, with parameters and a body of its own. -/
def isFunctionLike : ShapeOf ν → Bool
  | function .. | method .. | accessor .. | classConstructor .. => true
  | _ => false

end ShapeOf

end FunctionNaming
