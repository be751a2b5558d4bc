import FunctionNaming.Proofs.Grammar.Progress

/-!
First tokens: which kinds of tokens the phrases of a category can begin with. The parser chooses
between its rules by the first token, so what begins one sort of phrase tells it from the others.
-/

namespace FunctionNaming

/-- Whether the kind ends an element of a list. -/
def TokenKind.delimits : TokenKind → Bool
  | .closeBrace | .closeParen | .closeBracket | .comma | .endOfFile => true
  | _ => false

namespace Grammar

theorem Context.startsBinding_insideForHead (Γ : Context) (k : TokenKind) :
    Γ.insideForHead.startsBinding k = Γ.startsBinding k := rfl

/-! ### Kinds that phrases begin with -/

/-- Whether the kind begins an expression that stands by itself. -/
def Context.startsPrimary (Γ : Context) : TokenKind → Bool
  | .functionKeyword | .classKeyword | .openParen | .openBracket | .openBrace | .thisKeyword
  | .superKeyword | .trueKeyword | .falseKeyword | .nullKeyword | .string | .number => true
  | k => Γ.binds k

/-- Whether the kind begins what can be accessed or called. -/
def Context.startsChain (Γ : Context) (k : TokenKind) : Bool :=
  k == .newKeyword || Γ.startsPrimary k

/-- Whether the kind begins an operand with the operators around it. -/
def Context.startsOperand (Γ : Context) (k : TokenKind) : Bool :=
  k.isPrefixOperator || Γ.startsChain k

/-- Whether the kind begins an expression. -/
def Context.startsExpression (Γ : Context) (k : TokenKind) : Bool :=
  k == .yieldKeyword || Γ.startsOperand k

/-- The kinds that phrases of the category begin with, as far as the parser asks for them. -/
def Category.first (Γ : Context) : Category → TokenKind → Bool
  | .word, k => k.isWord
  | .name, k => Γ.binds k
  | .literal, k => k == .string || k == .number
  | .memberName, k => k != .star && k.startsMember
  | .bindingName, k | .declarator, k | .declarators, k => Γ.startsBinding k
  | .objectPatternElement, k => k == .ellipsis || k.startsMember
  | .arrayPatternElement, k | .parameter, k => k == .ellipsis || Γ.startsBinding k
  | .variableList, k | .variableStatement, k =>
    k == .varKeyword || k == .letKeyword || k == .constKeyword
  | .block, k | .objectLiteral, k => k == .openBrace
  | .arguments, k => k == .openParen
  | .function .., k => k == .functionKeyword || k == .asyncKeyword
  | .classLike .., k => k == .classKeyword
  | .arrowParameters, k => k == .openParen || Γ.binds k
  | .arrow, k => k == .openParen || Γ.binds k
  | .spread, k => k == .ellipsis
  | .objectMember, k => k == .ellipsis || k.startsMember
  | .classMember, k => k.startsMember
  | .primary, k => Γ.startsPrimary k
  | .construction, k => k == .newKeyword
  | .chain _, k | .leftHandSide, k => Γ.startsChain k
  | .unary, k | .operands _, k | .binary _, k | .conditional, k => Γ.startsOperand k
  | .yield, k => k == .yieldKeyword
  | .assignment, k | .sequence, k | .expression, k => Γ.startsExpression k
  | .element, k => k == .ellipsis || Γ.startsExpression k
  | .exportedDeclaration, k | .bareStatement, k | .statement, k =>
    k != .closeBrace && k != .endOfFile
  | _, _ => true

variable {c : Category} {Γ : Context} {d : Nat} {T rest : List Token} {ts : List SyntaxTree}

section Kinds

variable {k : TokenKind}

theorem Context.startsPrimary_of_binds (h : Γ.binds k = true) : Γ.startsPrimary k = true := by
  cases k <;> first | rfl | exact h

theorem Context.startsBinding_of_binds (h : Γ.binds k = true) : Γ.startsBinding k = true := by
  cases k <;> first | rfl | exact h

theorem Context.startsMember_of_binds (h : Γ.binds k = true) : k.startsMember = true := by
  cases k <;> first | rfl | cases h

theorem startsPrimary_of_keywordShape? {shape : ShapeOf SyntaxTree}
    (h : keywordShape? k = some shape) : Γ.startsPrimary k = true := by
  cases k <;> first | rfl | cases h

theorem TokenKind.startsMember_of_isWord (h : k.isWord = true) : k.startsMember = true := by
  cases k <;> first | rfl | cases h

theorem TokenKind.ne_star_of_isWord (h : k.isWord = true) : k ≠ .star := by
  rintro rfl
  cases h

theorem TokenKind.not_delimits_of_startsMember (h : k.startsMember = true) : ¬k.delimits := by
  cases k <;> first | decide | cases h

theorem Context.not_delimits_of_startsBinding (h : Γ.startsBinding k = true) : ¬k.delimits := by
  cases k <;> first | decide | cases h

theorem Context.not_delimits_of_startsExpression (h : Γ.startsExpression k = true) :
    ¬k.delimits := by
  cases k <;> first | decide | cases h

theorem variableKind_eq (keyword : VariableKeyword) :
    (variableKind keyword = .varKeyword ∨ variableKind keyword = .letKeyword) ∨
      variableKind keyword = .constKeyword := by
  cases keyword <;> simp [variableKind]

theorem Accepts.kindOf_or {present : Bool} {T' : List Token} (h : Accepts k present T T') :
    kindOf T = k ∨ T' = T := by
  cases present with
  | false => exact .inr h.2
  | true =>
    obtain ⟨t, ht, rfl⟩ := h
    exact .inl ht

theorem startsMember_of_passStatic {b : Bool} {T' : List Token}
    (h : passStatic T = (b, T')) (hT' : (kindOf T').startsMember = true) :
    (kindOf T).startsMember = true := by
  rw [passStatic] at h
  split at h <;> cases h
  · next hstatic =>
    simp only [Bool.and_eq_true, beq_iff_eq] at hstatic
    rw [hstatic.1]
    rfl
  · exact hT'

theorem startsMember_of_passModifiers {b : Bool} {m : Modifiers} {T' : List Token}
    (h : passModifiers b T = (m, T')) (hT' : (kindOf T').startsMember = true) :
    (kindOf T).startsMember = true := by
  by_cases hword : kindOf T = .getKeyword ∨ kindOf T = .setKeyword ∨ kindOf T = .asyncKeyword ∨
      kindOf T = .star
  · rcases hword with hword | hword | hword | hword <;> rw [hword] <;> rfl
  · simp only [not_or] at hword
    simp only [passModifiers, passAsync, passStar, hword, beq_iff_eq, Bool.and_eq_true,
      Prod.mk.injEq, false_and, if_false] at h
    rwa [h.2]

end Kinds

theorem Derives.first (h : Derives c Γ d T ts rest) :
    c.canBeEmpty = false → c.first Γ (kindOf T) = true := by
  induction h
  all_goals intro hc
  all_goals try (cases hc; done)
  all_goals simp_all [Category.first, Category.canBeEmpty, Context.startsExpression,
    Context.startsOperand, Context.startsChain]
  case literalName ih => rcases ih with ih | ih <;> simp [ih, TokenKind.startsMember]
  case wordName ih => exact ⟨TokenKind.ne_star_of_isWord ih, TokenKind.startsMember_of_isWord ih⟩
  case computedName => rfl
  case shorthandBinding ih => exact .inr (Context.startsMember_of_binds ih)
  case namedBinding ih _ => exact .inr (Context.startsMember_of_binds ih)
  case boundName ih => exact Context.startsBinding_of_binds ih
  case objectPattern => rfl
  case arrayPattern => rfl
  case variableList keyword => exact variableKind_eq _
  case parameter haccepts _ _ ih =>
    rcases haccepts.kindOf_or with hk | rfl
    · exact .inl hk
    · exact .inr ih
  case function haccepts ht _ _ _ =>
    rcases haccepts.kindOf_or with hk | rfl
    · exact .inr hk
    · exact .inl ht
  case arrow haccepts _ _ _ ih =>
    rcases haccepts.kindOf_or with hk | rfl
    · exact .inr (congrArg (Context.binds _) hk)
    · exact ih
  case accessorMember hm _ _ ih => exact .inr (startsMember_of_passModifiers hm ih.2)
  case methodMember hm _ _ _ ih => exact .inr (startsMember_of_passModifiers hm ih.2)
  case valueMember hm _ _ _ ih _ => exact .inr (startsMember_of_passModifiers hm ih.2)
  case shorthandMember hm _ _ _ _ ih => exact .inr (startsMember_of_passModifiers hm ih.2)
  case classAccessor hstatic hm _ _ ih =>
    exact startsMember_of_passStatic hstatic (startsMember_of_passModifiers hm ih.2)
  case classConstructor hstatic hm _ _ _ _ ih =>
    exact startsMember_of_passStatic hstatic (startsMember_of_passModifiers hm ih.2)
  case classMethod hstatic hm _ _ _ _ ih =>
    exact startsMember_of_passStatic hstatic (startsMember_of_passModifiers hm ih.2)
  case classField hstatic hm _ _ _ _ ih =>
    exact startsMember_of_passStatic hstatic (startsMember_of_passModifiers hm ih.2)
  case assignmentArrow ih =>
    refine .inr (.inr (.inr ?_))
    rcases ih with ih | ih
    · rw [ih]
      rfl
    · exact Context.startsPrimary_of_binds ih
  case primaryFunction ih => rcases ih with ih | ih <;> rw [ih] <;> rfl
  case primaryClass => rfl
  case parenthesized => rfl
  case arrayLiteral => rfl
  case primaryObject => rfl
  case primaryKeyword h => exact startsPrimary_of_keywordShape? h
  case primaryLiteral ih => rcases ih with ih | ih <;> rw [ih] <;> rfl
  case primaryName ih => exact Context.startsPrimary_of_binds ih
  case exportVariables ih => rcases ih with (ih | ih) | ih <;> simp [ih]
  case exportFunction ih => rcases ih with ih | ih <;> simp [ih]
  case «variables» ih => rcases ih with (ih | ih) | ih <;> simp [ih]
  case functionStatement ih => rcases ih with ih | ih <;> simp [ih]
  case expressionStatement hstarts _ _ ih =>
    constructor <;> intro hk <;> rw [hk] at ih <;> simp only [reduceCtorEq, false_or] at ih <;>
      rcases ih with ih | ih <;> cases ih

end Grammar

end FunctionNaming
