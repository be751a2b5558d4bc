import FunctionNaming.Proofs.Syntax.SyntaxTree
import FunctionNaming.Proofs.Token.Literal

/-!
Trees that can be printed legibly: words are words, numbers are numbers, strings have quotes, and an
operator is followed by something that does not turn it into another token. What a phrase of an
expression begins with is decided by its leftmost part.
-/

namespace FunctionNaming

namespace ShapeOf

variable {ν : Type}

/-- Whether what is printed for the shape begins with a word, a literal, a bracket or a prefix. -/
def opens : ShapeOf ν → Bool
  | identifier _ | stringLiteral .. | numberLiteral _ | trueLiteral | falseLiteral | nullLiteral
  | thisExpression | superExpression | arrayLiteral _ | objectLiteral _ | function ..
  | classLike .. | parenthesized _ | new .. | prefixed .. | yieldExpression .. => true
  | _ => false

/-- The part with which what is printed for the shape begins. -/
def leftmost? : ShapeOf ν → Option ν
  | propertyAccess object _ | elementAccess object _ => object
  | call callee _ => callee
  | binary left _ _ => left
  | postfixed _ operand => operand
  | conditional condition _ _ => condition
  | _ => none

theorem mem_children_of_leftmost? {shape : ShapeOf ν} {part : ν} (h : shape.leftmost? = some part) :
    part ∈ shape.children := by
  cases shape <;> simp_all [leftmost?, children]

end ShapeOf

namespace SyntaxTree

/-- That what is printed for the tree begins with something, but with no slash and no star. -/
inductive Leads : SyntaxTree → Prop
  | opens {shape : ShapeOf SyntaxTree} : shape.opens = true → Leads (.node shape)
  | leftmost {shape : ShapeOf SyntaxTree} {tree : SyntaxTree} : shape.leftmost? = some tree →
      Leads tree → Leads (.node shape)

/-- Whether the tree is an identifier. -/
def isIdentifier : SyntaxTree → Bool
  | .node (.identifier _) => true
  | _ => false

@[simp] theorem leads_node_iff {shape : ShapeOf SyntaxTree} :
    Leads (.node shape) ↔
      shape.opens = true ∨ ∃ tree, shape.leftmost? = some tree ∧ Leads tree := by
  constructor
  · intro h
    cases h with
    | opens h => exact .inl h
    | leftmost hleft htree => exact .inr ⟨_, hleft, htree⟩
  · rintro (h | ⟨tree, hleft, htree⟩)
    · exact .opens h
    · exact .leftmost hleft htree

end SyntaxTree

/-- What a legible shape asks of its own texts. -/
def ShapeOf.HasLegibleText {ν : Type} : ShapeOf ν → Prop
  | .identifier text => isWord text.toList = true
  | .numberLiteral text => text ≠ "" ∧ ∀ c ∈ text.toList, isNumeralPart c = true
  | .stringLiteral quote _ => isQuote quote = true
  | .prefixed operator _ => operator.isPrefixOperator = true
  | .postfixed operator _ => operator.isPostfixOperator = true
  | _ => True

open SyntaxTree (Leads)

/-- What a legible shape asks of what stands in its places. -/
def ShapeOf.HasLegibleParts : ShapeOf SyntaxTree → Prop
  | .function _ parts =>
    (∃ body, parts.body = some body) ∧ ∀ name, parts.name = some name → name.isIdentifier = true
  | .binary _ _ right => ∃ tree, right = some tree ∧ Leads tree
  | _ => True

/-- That a shape is legible, up to its parts. -/
def ShapeOf.IsLegible (shape : ShapeOf SyntaxTree) : Prop :=
  shape.HasLegibleText ∧ shape.HasLegibleParts

/-- That all the shapes in a tree are legible. -/
inductive SyntaxTree.Legible : SyntaxTree → Prop
  | node {shape : ShapeOf SyntaxTree} : shape.IsLegible → (∀ tree ∈ shape.children, Legible tree) →
      Legible (.node shape)

@[simp] theorem SyntaxTree.legible_node_iff {shape : ShapeOf SyntaxTree} :
    Legible (.node shape) ↔ shape.IsLegible ∧ ∀ tree ∈ shape.children, Legible tree := by
  constructor
  · rintro ⟨hshape, hparts⟩
    exact ⟨hshape, hparts⟩
  · rintro ⟨hshape, hparts⟩
    exact .node hshape hparts

/-! ### Shapes and their trees -/

namespace ShapeOf

variable {α β : Type} {g : α → Option β} {shape : ShapeOf α} {shape' : ShapeOf β}

theorem opens_of_replace? (h : shape.replace? g = some shape') : shape'.opens = shape.opens :=
  eq_of_replace? opens (fun _ shape => by cases shape <;> rfl) h

theorem mapM_leftmost? (h : shape.replace? g = some shape') :
    shape.leftmost?.mapM g = some shape'.leftmost? :=
  optionMapM_of_replace? leftmost? (fun _ shape => by cases shape <;> rfl) h

theorem hasLegibleText_of_replace? (h : shape.replace? g = some shape')
    (ht : shape'.HasLegibleText) : shape.HasLegibleText := by
  rw [← eq_of_replace? HasLegibleText (fun _ shape => by cases shape <;> rfl) h]
  exact ht

end ShapeOf

end FunctionNaming
