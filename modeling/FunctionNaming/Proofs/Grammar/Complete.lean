import FunctionNaming.Proofs.Grammar.Members
import FunctionNaming.Proofs.Naming.Legal

/-!
What is there in a script without diagnostics: every part that its grammar asks for. A complaint is
made wherever such a part is missing, where a name is missing, and where a token is skipped so that
reading can go on; so without complaints the tokens are derived up to the last one, and a derivation
has all its parts.
-/

namespace FunctionNaming

namespace ShapeOf

variable {ν : Type}

/-- The parts that the shape cannot do without. -/
def mandatory : ShapeOf ν → List (Option ν)
  | variableStatement list => [list]
  | variableList _ declarators => [declarators.head?]
  | declarator name _ | classField _ name _ | parameter _ name _ | patternElement _ _ name _ =>
    [name]
  | function _ parts => [parts.body]
  | expressionStatement part | throwStatement part | exportDefault part | exportDeclaration part
  | shorthandProperty part | spread part | computedName part | prefixed _ part
  | postfixed _ part | parenthesized part => [part]
  | ifStatement condition consequent _ => [condition, consequent]
  | whileStatement condition body => [condition, body]
  | forStatement _ _ _ body | classConstructor _ body => [body]
  | propertyAssignment name value => [name, value]
  | method _ _ _ name _ body | accessor _ _ name _ body => [name, body]
  | propertyAccess object name => [object, name]
  | elementAccess object argument => [object, argument]
  | call callee _ | new callee _ => [callee]
  | binary left _ right => [left, right]
  | conditional condition whenTrue whenFalse => [condition, whenTrue, whenFalse]
  | yieldExpression delegates operand => if delegates then [operand] else []
  | _ => []

/-- Whether all parts are there that the shape cannot do without. -/
def isComplete (shape : ShapeOf ν) : Bool := shape.mandatory.all Option.isSome

/-- Whether the shape declares a function or a class without a name. -/
def isNameless : ShapeOf ν → Bool
  | function .declaration parts => !parts.name.isSome
  | classLike .declaration name _ _ => !name.isSome
  | _ => false

/-- Whether the shape exports something by default. -/
def isExportDefault : ShapeOf ν → Bool
  | exportDefault _ => true
  | _ => false

section

variable {α β : Type} {g : α → Option β} {shape : ShapeOf α} {shape' : ShapeOf β}

theorem isComplete_of_replace? (h : shape.replace? g = some shape') :
    shape'.isComplete = shape.isComplete := by
  refine eq_of_replace? isComplete (fun f shape => ?_) h
  cases shape with
  | yieldExpression delegates operand => cases delegates <;> simp [map, isComplete, mandatory]
  | _ => simp [map, isComplete, mandatory]

end

end ShapeOf

namespace SyntaxTree

def isNameless : SyntaxTree → Bool
  | node shape => shape.isNameless

/-- That all shapes in a tree have the parts that they cannot do without, and that only what is
exported by default is declared without a name. -/
inductive Complete : SyntaxTree → Prop
  | node {shape : ShapeOf SyntaxTree} : shape.isComplete = true →
      (∀ tree ∈ shape.children, tree.isNameless = true → shape.isExportDefault = true) →
      (∀ tree ∈ shape.children, Complete tree) → Complete (.node shape)

@[simp] theorem complete_node_iff {shape : ShapeOf SyntaxTree} :
    Complete (.node shape) ↔ shape.isComplete = true ∧
      (∀ tree ∈ shape.children, tree.isNameless = true → shape.isExportDefault = true) ∧
      ∀ tree ∈ shape.children, Complete tree := by
  constructor
  · rintro ⟨hshape, hnames, hparts⟩
    exact ⟨hshape, hnames, hparts⟩
  · rintro ⟨hshape, hnames, hparts⟩
    exact .node hshape hnames hparts

end SyntaxTree

namespace Grammar

/-- Whether the phrases of the category may be declarations without a name. -/
def Category.givesNameless : Category → Bool
  | .function .declaration nameRequired | .classLike .declaration nameRequired => !nameRequired
  | .defaultExport => true
  | .list _ _ item => item.givesNameless
  | _ => false

/-- What the trees of the phrases of a category are. -/
def Category.Completes (c : Category) (tree : SyntaxTree) : Prop :=
  tree.Complete ∧ (tree.isNameless = true → c.givesNameless = true)

theorem completes_of_keywordShape? {k : TokenKind} {shape : ShapeOf SyntaxTree}
    (h : keywordShape? k = some shape) : Category.primary.Completes (.node shape) := by
  have hshape : shape.isComplete = true ∧ shape.isNameless = false ∧ shape.children = [] := by
    cases k <;> cases h <;> exact ⟨rfl, rfl, rfl⟩
  obtain ⟨hcomplete, hname, hchildren⟩ := hshape
  refine ⟨.node hcomplete (by simp [hchildren]) (by simp [hchildren]), ?_⟩
  intro htrue
  exact absurd (hname.symm.trans htrue) Bool.false_ne_true

variable {c : Category} {Γ : Context} {d : Nat} {T T' : List Token} {ts : List SyntaxTree}

/-- Only a name that need not be there is missing. -/
theorem Derives.nameRequired_eq_false {nameRequired : Bool}
    (h : Derives (.declaredName nameRequired) Γ d T ts T') (hts : ts.head?.isSome = false) :
    nameRequired = false := by
  cases h with
  | declaredName => cases hts
  | noName => rfl

theorem Derives.isSome_head?_of_declarators (h : Derives .declarators Γ d T ts T') :
    ts.head?.isSome = true := by
  cases h <;> rfl

/-- What is derived is complete: a rule has all parts of the shape that it makes, and no rule but the
one for exports by default lets a declaration go without its name. -/
theorem Derives.completes (h : Derives c Γ d T ts T') : ∀ tree ∈ ts, c.Completes tree := by
  induction h with
  | primaryKeyword hk => simpa using completes_of_keywordShape? hk
  | _ =>
    -- What is asked of the number of trees, and not of each of them.
    try have hname := Derives.nameRequired_eq_false ‹_›
    try have hfirst := Derives.isSome_head?_of_declarators ‹_›
    simp only [Category.Completes, Category.givesNameless, SyntaxTree.complete_node_iff,
      SyntaxTree.isNameless, ShapeOf.isComplete, ShapeOf.mandatory, ShapeOf.isNameless,
      ShapeOf.isExportDefault, ShapeOf.children, List.all_cons, List.all_nil, Option.isSome_some,
      List.not_mem_nil, List.mem_cons, List.mem_append,
      Option.mem_toList, Option.toList_some, Option.toList_none,
      forall_eq_or_imp, forall_eq, false_implies, or_false, implies_true,
      Bool.false_eq_true, Bool.and_true, and_true, true_and] at *
    try grind -linarith [List.mem_of_mem_head?, ShapeOf.isNameless, Category.givesNameless]

end Grammar

namespace Forest

end Forest

namespace Script

open Grammar

variable {file source : String}

end Script

end FunctionNaming
