/-!
Sets of characters given by ranges of code points. A property of the character database, such as
being a letter or being white space, is one such set; its module holds the ranges and this one
says what belonging to them means.
-/

namespace FunctionNaming.Text

/-- A set of characters: the closed ranges of code points that it consists of. -/
structure CharSet where
  ranges : List (Nat × Nat)

namespace CharSet

/-- Whether the code point of `c` lies in one of the ranges. -/
def contains (s : CharSet) (c : Char) : Bool :=
  s.ranges.any fun r => decide (r.1 ≤ c.toNat) && decide (c.toNat ≤ r.2)

theorem contains_iff {s : CharSet} {c : Char} :
    s.contains c = true ↔ ∃ r ∈ s.ranges, r.1 ≤ c.toNat ∧ c.toNat ≤ r.2 := by
  simp [contains]

end CharSet

end FunctionNaming.Text
