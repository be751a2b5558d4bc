import FunctionNaming.Proofs.Syntax.Everywhere
import FunctionNaming.Proofs.Syntax.Spans

/-!
What names a method and what a parameter binds: a word, a literal, or something in brackets. So no
function begins where a method or a parameter does, though something of them may.
-/

namespace FunctionNaming

namespace ShapeOf

end ShapeOf

namespace SyntaxTree

def isNameLike : SyntaxTree → Bool
  | node shape => shape.isNameLike

end SyntaxTree

namespace Grammar

variable {c : Category} {Γ : Context} {d : Nat} {T rest : List Token} {ts : List SyntaxTree}

/-- Whether the phrases of the category can stand for what a binding binds. -/
def Category.givesBound : Category → Bool
  | .name | .bindingName => true
  | _ => false

theorem Derives.isNameLike (h : Derives c Γ d T ts rest) (hc : c.givesBound = true) :
    ∀ tree ∈ ts, tree.isNameLike = true := by
  induction h <;> simp_all [Category.givesBound, SyntaxTree.isNameLike, ShapeOf.isNameLike]

end Grammar

namespace Forest

end Forest

namespace Script

end Script

end FunctionNaming
