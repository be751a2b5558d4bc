import FunctionNaming.Proofs.Grammar.Progress
import FunctionNaming.Proofs.Syntax.Legible
import FunctionNaming.Proofs.Token.Sound

/-!
The trees of phrases are legible, if the tokens of the phrases are those that a scanner makes.
-/

namespace FunctionNaming

namespace Grammar

/-- That all tokens ahead are as the scanner makes them. -/
def AllSound (T : List Token) : Prop := ∀ t ∈ T, t.IsSound

@[simp, grind =] theorem allSound_cons {t : Token} {T : List Token} :
    AllSound (t :: T) ↔ t.IsSound ∧ AllSound T := List.forall_mem_cons

theorem allSound_of_isSuffix {T T' : List Token} (h : T' <:+ T) (hT : AllSound T) : AllSound T' :=
  fun t ht => hT t (h.mem ht)

/-- Whether the phrases of the category are expressions. -/
def Category.isExpression : Category → Bool
  | .sequence | .expression | .yield | .conditional | .assignment | .operands _ | .binary _ | .unary
  | .primary | .chain _ | .leftHandSide | .construction | .arrow | .literal | .word | .name
  | .objectLiteral | .function .. | .classLike .. => true
  | _ => false

/-- Whether the phrases of the category are names. -/
def Category.isName : Category → Bool
  | .word | .name | .declaredName _ => true
  | _ => false

open SyntaxTree (Leads Legible)

/-- What the trees of the phrases of a category are. -/
structure Category.Fits (c : Category) (tree : SyntaxTree) : Prop where
  legible : tree.Legible
  leads : c.isExpression = true → tree.Leads
  name : c.isName = true → tree.isIdentifier = true

theorem Category.fits_iff {c : Category} {tree : SyntaxTree} :
    c.Fits tree ↔ tree.Legible ∧ (c.isExpression = true → tree.Leads) ∧
      (c.isName = true → tree.isIdentifier = true) :=
  ⟨fun h => ⟨h.legible, h.leads, h.name⟩, fun h => ⟨h.1, h.2.1, h.2.2⟩⟩

/-- A word that is an expression by itself is legible. -/
theorem fits_of_keywordShape? {k : TokenKind} {shape : ShapeOf SyntaxTree}
    (h : keywordShape? k = some shape) : Category.primary.Fits (.node shape) := by
  have hshape : shape.opens = true ∧ shape.IsLegible ∧ shape.children = [] := by
    cases k <;> cases h <;> exact ⟨rfl, ⟨trivial, trivial⟩, rfl⟩
  obtain ⟨hopens, hlegible, hchildren⟩ := hshape
  exact ⟨.node hlegible (by simp [hchildren]), fun _ => .opens hopens, nofun⟩

/-- What is derived from sound tokens is legible: a rule names the tokens that it takes, and what it
puts together is legible where its parts are. -/
theorem Derives.fits {c : Category} {Γ : Context} {d : Nat} {T T' : List Token}
    {ts : List SyntaxTree} (h : Derives c Γ d T ts T') :
    AllSound T → AllSound T' ∧ ∀ tree ∈ ts, c.Fits tree := by
  have haccepts : ∀ (k : TokenKind) {b} {T T' : List Token}, Accepts k b T T' →
      AllSound T → AllSound T' := fun _ _ _ _ h => allSound_of_isSuffix h.isSuffix
  induction h with
  | primaryKeyword hk =>
    intro hT
    refine ⟨(allSound_cons.1 hT).2, ?_⟩
    simpa using fits_of_keywordShape? hk
  | _ =>
    intro hT
    -- What is passed without being a phrase of its own.
    try have hterminates := allSound_of_isSuffix (Terminates.isSuffix ‹_›)
    try have hasync := haccepts .asyncKeyword ‹_›
    try have hstar := haccepts .star ‹_›
    try have hellipsis := haccepts .ellipsis ‹_›
    try have hmodifier := allSound_of_isSuffix (isSuffix_passModifiers ‹_›)
    try have hword := allSound_of_isSuffix (isSuffix_passStatic ‹_›)
    simp only [allSound_cons, Category.fits_iff, Category.isExpression, Category.isName,
      SyntaxTree.legible_node_iff, SyntaxTree.leads_node_iff, SyntaxTree.isIdentifier,
      ShapeOf.IsLegible, ShapeOf.HasLegibleText, ShapeOf.HasLegibleParts, ShapeOf.opens, ShapeOf.leftmost?, ShapeOf.children,
      List.not_mem_nil, List.mem_cons, List.mem_append, Option.mem_toList, Option.toList_some,
      Option.toList_none, Option.some.injEq, forall_eq_or_imp, false_implies,
      true_implies, implies_true, Bool.false_eq_true, and_true, true_and, true_or] at *
    try grind -linarith [List.mem_of_mem_head?, Token.IsSound, isWord_of_binds]

end Grammar

end FunctionNaming
