import FunctionNaming.Proofs.Syntax.Forest

/-!
Forests that look alike: they hold the same nodes with the same parents, wherever these stand in the
text. What a shape takes from the text itself, and not from its tokens, is left out: the name of the
file, and the quotes of a string, which decide nothing but how the string is printed.
-/

namespace FunctionNaming

namespace ShapeOf

variable {ν : Type}

/-- The shape without what it takes from the text. -/
def withoutText : ShapeOf ν → ShapeOf ν
  | script statements _ => .script statements ""
  | stringLiteral _ value => .stringLiteral '"' value
  | shape => shape

@[simp] theorem children_withoutText (shape : ShapeOf ν) :
    shape.withoutText.children = shape.children := by
  cases shape <;> rfl

end ShapeOf

namespace Forest

/-- That two forests hold the same nodes, apart from where these stand and what they take from the
text. -/
structure Alike (f f' : Forest) : Prop where
  size : f.size = f'.size
  parent? : ∀ id, f.parent? id = f'.parent? id
  shape? : ∀ id, (f.shape? id).map ShapeOf.withoutText = (f'.shape? id).map ShapeOf.withoutText

theorem Alike.refl (f : Forest) : f.Alike f := ⟨rfl, fun _ => rfl, fun _ => rfl⟩

theorem Alike.add {f f' : Forest} (h : f.Alike f') {shape shape' : Shape}
    (hshape : shape.withoutText = shape'.withoutText) (start stop start' stop' : Nat) :
    (f.add start stop shape).Alike (f'.add start' stop' shape') where
  size := by rw [size_add, size_add, h.size]
  parent? id := by
    have hchildren : shape.children = shape'.children := by
      rw [← ShapeOf.children_withoutText, hshape, ShapeOf.children_withoutText]
    rw [parent?_add, parent?_add, hchildren, h.size, h.parent?]
  shape? id := by
    rw [shape?_add, shape?_add, h.size]
    split
    · exact congrArg some hshape
    · exact h.shape? id

end Forest

end FunctionNaming
