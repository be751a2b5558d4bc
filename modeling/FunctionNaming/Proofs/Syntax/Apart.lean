import FunctionNaming.Proofs.Grammar.Complete
import FunctionNaming.Proofs.Print.Edges
import FunctionNaming.Proofs.Syntax.Everywhere

/-!
Trees whose parts are kept apart when they are printed. What may stand behind a tree is decided by the
last part that is printed for it. Some parts of a shape have to end so that anything may follow, since
the next part follows without a mark of its own: statements, members, and what a member is accessed of.
-/

namespace FunctionNaming

open Literal (IsNumeral)

/-- Whether the kind is an operator that stands between two operands. -/
def TokenKind.isBinaryOperator (k : TokenKind) : Bool :=
  k.precedence?.isSome || k.isAssignment || k == .comma

namespace ShapeOf

variable {ν : Type}

/-- What may stand behind what is printed for the shape, if it does not end with one of its parts. -/
def exit : ShapeOf ν → Edge
  | block _ | variableStatement _ | expressionStatement _ | returnStatement _ | throwStatement _
  | ifStatement .. | emptyStatement | exportDefault _ | classLike .. | classField .. | identifier _
  | stringLiteral .. | trueLiteral | falseLiteral | nullLiteral | thisExpression | superExpression
  | arrayLiteral _ | objectLiteral _ | computedName _ | pattern .. | propertyAccess ..
  | elementAccess .. | call .. | new .. | postfixed .. | parenthesized _ | yieldExpression .. =>
    .settled
  | numberLiteral digits => if digits.toList.any (fun c => !c.isDigit) then .object else .closing
  | _ => .closing

/-- The part with which what is printed for the shape ends. -/
def rightmost? : ShapeOf ν → Option ν
  | function _ parts => parts.body
  | method _ _ _ _ _ body | accessor _ _ _ _ body | classConstructor _ body
  | whileStatement _ body | forStatement _ _ _ body => body
  | ifStatement _ _ alternative => alternative
  | exportDeclaration declaration => declaration
  | binary _ _ right => right
  | prefixed _ operand => operand
  | conditional _ _ whenFalse => whenFalse
  | new callee arguments => if arguments.isSome then none else callee
  | yieldExpression _ expression => expression
  | _ => none

/-- Whether the shape stands in lists only, since it is printed as nothing or begins with a star, or
whether it is a script. -/
def isListed : ShapeOf ν → Bool
  | hole | method .. | script .. => true
  | _ => false

/-- Whether what stands in lists only may be a part of the shape. -/
def holdsListed : ShapeOf ν → Bool
  | arrayLiteral _ | objectLiteral _ | pattern .. | classLike .. => true
  | _ => false

/-- Whether the shape is a number. -/
def isNumber : ShapeOf ν → Bool
  | numberLiteral _ => true
  | _ => false

/-- Whether the shape declares a function or a class. -/
def isDeclaration : ShapeOf ν → Bool
  | function .declaration _ | classLike .declaration .. => true
  | _ => false

/-- The parts behind which there may have to be anything. -/
def settledParts : ShapeOf ν → List ν
  | script statements _ | block statements => statements
  | classLike _ name _ members => name.toList ++ members
  | ifStatement _ consequent _ => consequent.toList
  | _ => []

theorem mem_children_of_rightmost? {shape : ShapeOf ν} {part : ν}
    (h : shape.rightmost? = some part) : part ∈ shape.children := by
  cases shape <;> grind -linarith [rightmost?, children]

theorem holdsListed_eq_false_of_rightmost? {shape : ShapeOf ν} {part : ν}
    (h : shape.rightmost? = some part) : shape.holdsListed = false := by
  cases shape <;> first | rfl | cases h

theorem mem_children_of_settledParts {shape : ShapeOf ν} {part : ν}
    (h : part ∈ shape.settledParts) : part ∈ shape.children := by
  cases shape <;> simp only [settledParts, children] at h ⊢ <;> grind -linarith

section

variable {α β : Type} {g : α → Option β} {shape : ShapeOf α} {shape' : ShapeOf β}

theorem exit_of_replace? (h : shape.replace? g = some shape') : shape'.exit = shape.exit :=
  eq_of_replace? exit (fun _ shape => by cases shape <;> rfl) h

theorem mapM_rightmost? (h : shape.replace? g = some shape') :
    shape.rightmost?.mapM g = some shape'.rightmost? := by
  refine optionMapM_of_replace? rightmost? (fun f shape => ?_) h
  cases shape with
  | new callee arguments => cases arguments <;> rfl
  | _ => rfl

theorem isListed_of_replace? (h : shape.replace? g = some shape') :
    shape'.isListed = shape.isListed :=
  eq_of_replace? isListed (fun _ shape => by cases shape <;> rfl) h

theorem holdsListed_of_replace? (h : shape.replace? g = some shape') :
    shape'.holdsListed = shape.holdsListed :=
  eq_of_replace? holdsListed (fun _ shape => by cases shape <;> rfl) h

theorem isDeclaration_of_replace? (h : shape.replace? g = some shape') :
    shape'.isDeclaration = shape.isDeclaration := by
  refine eq_of_replace? isDeclaration (fun f shape => ?_) h
  cases shape with
  | function role parts => cases role <;> rfl
  | classLike role name heritage members => cases role <;> rfl
  | _ => rfl

theorem eq_numberLiteral_of_replace? {digits : String}
    (h : shape.replace? g = some (.numberLiteral digits)) : shape = .numberLiteral digits := by
  have heq := map_eq_of_replace? h
  cases shape <;> cases heq
  rfl

theorem mapM_settledParts (h : shape.replace? g = some shape') :
    shape.settledParts.mapM g = some shape'.settledParts :=
  mapM_of_replace? settledParts (fun f shape => by cases shape <;> simp [map, settledParts, Option.toList_map]) h

end

end ShapeOf

namespace SyntaxTree

def isListed : SyntaxTree → Bool
  | node shape => shape.isListed

def isNumber : SyntaxTree → Bool
  | node shape => shape.isNumber

def isDeclaration : SyntaxTree → Bool
  | node shape => shape.isDeclaration

@[simp] theorem isListed_node (shape : ShapeOf SyntaxTree) :
    (node shape).isListed = shape.isListed := rfl

@[simp] theorem isNumber_node (shape : ShapeOf SyntaxTree) :
    (node shape).isNumber = shape.isNumber := rfl

@[simp] theorem isDeclaration_node (shape : ShapeOf SyntaxTree) :
    (node shape).isDeclaration = shape.isDeclaration := rfl

/-- That there may stand behind what is printed for a tree what may stand behind the edge. -/
inductive Exits (e : Edge) : SyntaxTree → Prop
  | self {shape : ShapeOf SyntaxTree} : shape.rightmost? = none → e.Within shape.exit →
      Exits e (.node shape)
  | rightmost {shape : ShapeOf SyntaxTree} {tree : SyntaxTree} : shape.rightmost? = some tree →
      Exits e tree → Exits e (.node shape)

@[simp] theorem exits_node_iff {e : Edge} {shape : ShapeOf SyntaxTree} :
    Exits e (.node shape) ↔ (shape.rightmost? = none ∧ e.Within shape.exit) ∨
      ∃ tree, shape.rightmost? = some tree ∧ Exits e tree := by
  constructor
  · intro h
    cases h with
    | self hnone hwithin => exact .inl ⟨hnone, hwithin⟩
    | rightmost hright htree => exact .inr ⟨_, hright, htree⟩
  · rintro (⟨hnone, hwithin⟩ | ⟨tree, hright, htree⟩)
    · exact .self hnone hwithin
    · exact .rightmost hright htree

/-- What a shape asks of its own texts and of single parts of it. -/
def FitsTogether : ShapeOf SyntaxTree → Prop
  | .binary _ operator _ => operator.isBinaryOperator = true
  | .exportDefault exported =>
    ∀ tree, exported = some tree → tree.isDeclaration = true → tree.Exits .settled
  | .propertyAccess object name =>
    (∀ tree, object = some tree → tree.isNumber = true ∨ tree.Exits .settled) ∧
      ∀ tree, name = some tree → tree.isIdentifier = true
  | _ => True

/-- What a shape asks of its parts so that they are kept apart. -/
structure KeepsApart (shape : ShapeOf SyntaxTree) : Prop where
  listed : ∀ tree ∈ shape.children, tree.isListed = true → shape.holdsListed = true
  settled : ∀ tree ∈ shape.settledParts, tree.Exits .settled
  fits : FitsTogether shape

theorem keepsApart_iff {shape : ShapeOf SyntaxTree} :
    KeepsApart shape ↔
      (∀ tree ∈ shape.children, tree.isListed = true → shape.holdsListed = true) ∧
        (∀ tree ∈ shape.settledParts, tree.Exits .settled) ∧ FitsTogether shape :=
  ⟨fun h => ⟨h.listed, h.settled, h.fits⟩, fun h => ⟨h.1, h.2.1, h.2.2⟩⟩

/-- That the numbers in a tree are read as such. -/
def HasNumeral : ShapeOf SyntaxTree → Prop
  | .numberLiteral digits => IsNumeral digits.toList
  | _ => True

end SyntaxTree

end FunctionNaming
