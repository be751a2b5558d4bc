import FunctionNaming.Proofs.Grammar.Derivation

/-!
How far phrases reach: what follows a phrase is a part of the tokens ahead, and most phrases have at
least one token.
-/

namespace FunctionNaming.Grammar

/-- Whether phrases of the category have exactly one tree. -/
def Category.isSingle : Category → Bool
  | .declaredName _ | .initializer | .declarators | .list .. | .statements | .signature ..
  | .arrowParameters | .classMembers | .heritage | .arguments | .returnValue | .alternative
  | .forInitializer | .expressionBefore _ => false
  | _ => true

/-- Whether phrases of the category may have no tokens. -/
def Category.canBeEmpty : Category → Bool
  | .declaredName _ | .initializer | .list .. | .statements | .classMembers | .heritage
  | .returnValue | .alternative | .forInitializer | .expressionBefore _ => true
  | _ => false

variable {c : Category} {Γ : Context} {d : Nat} {T T' : List Token} {ts : List SyntaxTree}

theorem Accepts.isSuffix {k : TokenKind} {present : Bool} (h : Accepts k present T T') :
    T' <:+ T := by
  cases present with
  | false =>
    obtain ⟨-, rfl⟩ := h
    exact List.suffix_refl T'
  | true =>
    obtain ⟨t, -, rfl⟩ := h
    exact List.suffix_cons t T'

theorem Terminates.isSuffix (h : Terminates T T') : T' <:+ T := by
  rcases h with h | ⟨h, -⟩
  · exact h.isSuffix
  · exact h.isSuffix

theorem isSuffix_passStatic {b : Bool} (h : passStatic T = (b, T')) : T' <:+ T := by
  rw [passStatic] at h
  split at h <;> cases h
  · exact List.tail_suffix T
  · exact List.suffix_refl T

theorem isSuffix_passModifiers {b : Bool} {m : Modifiers} (h : passModifiers b T = (m, T')) :
    T' <:+ T := by
  have hasync : (passAsync T).2 <:+ T := by
    rw [passAsync]
    split
    · exact List.tail_suffix T
    · exact List.suffix_refl T
  have hstar : (passStar (passAsync T).2).2 <:+ (passAsync T).2 := by
    rw [passStar]
    split
    · exact List.tail_suffix _
    · exact List.suffix_refl _
  rw [passModifiers] at h
  split at h
  · cases h
    exact List.tail_suffix T
  · split at h <;> cases h
    · exact List.tail_suffix T
    · exact hstar.trans hasync

/-- What follows a phrase is a part of the tokens ahead. -/
theorem Derives.isSuffix (h : Derives c Γ d T ts T') : T' <:+ T := by
  have haccepts : ∀ (k : TokenKind) {b} {T T' : List Token}, Accepts k b T T' → T' <:+ T :=
    fun _ _ _ _ h => h.isSuffix
  induction h
  all_goals
    -- What is passed without being a phrase of its own.
    try have hterminates := Terminates.isSuffix ‹_›
    try have hasync := haccepts .asyncKeyword ‹_›
    try have hstar := haccepts .star ‹_›
    try have hellipsis := haccepts .ellipsis ‹_›
    try have hmodifier := isSuffix_passModifiers ‹_›
    try have hword := isSuffix_passStatic ‹_›
    grind [List.IsSuffix.trans, List.suffix_cons, List.suffix_refl]

theorem Derives.single (h : Derives c Γ d T ts T') (hc : c.isSingle = true) : ∃ t, ts = [t] := by
  induction h <;> first | exact ⟨_, rfl⟩ | cases hc

/-- How many tokens phrases of the category have at least. -/
def Category.minimum (c : Category) : Nat := if c.canBeEmpty then 0 else 1

theorem Derives.length_add_minimum_le (h : Derives c Γ d T ts T') :
    T'.length + c.minimum ≤ T.length := by
  have haccepts : ∀ (k : TokenKind) {b} {T T' : List Token}, Accepts k b T T' →
      T'.length ≤ T.length := fun _ _ _ _ h => h.isSuffix.length_le
  induction h
  all_goals
    -- What is passed without being a phrase of its own.
    try have hterminates := (Terminates.isSuffix ‹_›).length_le
    try have hasync := haccepts .asyncKeyword ‹_›
    try have hstar := haccepts .star ‹_›
    try have hellipsis := haccepts .ellipsis ‹_›
    try have hmodifier := (isSuffix_passModifiers ‹_›).length_le
    try have hword := (isSuffix_passStatic ‹_›).length_le
    simp only [Category.minimum, Category.canBeEmpty, List.length_cons, if_true, if_false,
      Bool.false_eq_true] at *
    omega

theorem Derives.length_le (h : Derives c Γ d T ts T') : T'.length ≤ T.length :=
  Nat.le_of_add_right_le h.length_add_minimum_le

/-- A phrase that is not empty moves past a token. -/
theorem Derives.length_lt (h : Derives c Γ d T ts T') (hc : c.canBeEmpty = false) :
    T'.length < T.length := by
  have hlength := h.length_add_minimum_le
  rw [Category.minimum, hc] at hlength
  exact hlength

end FunctionNaming.Grammar
