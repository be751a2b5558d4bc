import FunctionNaming.Proofs.Grammar.Apart
import FunctionNaming.Proofs.Grammar.Balanced
import FunctionNaming.Proofs.Print.TreeMarks

/-!
Phrases that are printed and read again. What is printed for the trees of a phrase is a phrase with
the same trees, whatever is printed behind it, as long as this does not go on with the phrase where
the script did not.
-/

namespace FunctionNaming

open SyntaxTree (node)

/-! ### What stands behind a phrase -/

/-- Whether a phrase ends before a token of the kind in any case. -/
def TokenKind.closes : TokenKind → Bool
  | .semicolon | .closeBrace | .closeParen | .closeBracket | .endOfFile => true
  | _ => false

/-- Whether what stands before a token of the kind may be the beginning of an expression, or the class
that is extended. -/
def TokenKind.continues (k : TokenKind) : Bool :=
  k.isAssignment || k.isPostfixOperator || k.precedence?.isSome ||
    match k with
    | .dot | .openBracket | .openParen | .openBrace | .question | .colon | .comma => true
    | _ => false

/-- That a tree ends with the word `yield` that has no operand. -/
inductive SyntaxTree.EndsInYield : SyntaxTree → Prop
  | alone : EndsInYield (node (.yieldExpression false none))
  | last {s : ShapeOf SyntaxTree} {t : SyntaxTree} : s.rightmost? = some t → EndsInYield t →
      EndsInYield (node s)

namespace Grammar

open SyntaxTree (slotMarks commaMarks lineMarks initializerMarks heritageMarks alternativeMarks
  exportedMarks EndsInYield)

/-- That an element of a list that stands before `rest` ends before `R`, too. -/
def EndsElement (rest R : List Token) : Prop :=
  (kindOf R).closes = true ∨ kindOf R = .comma ∧ kindOf rest = .comma

/-- That an expression that stands before `rest` ends before `R`, too. -/
def EndsExpression (ts : List SyntaxTree) (rest R : List Token) : Prop :=
  (kindOf R).closes = true ∨ kindOf R = kindOf rest ∧
    (kindOf R = .comma ∨ kindOf R = .colon ∨
      (kindOf R).isAssignment = true ∧ ∀ t ∈ ts, ¬t.EndsInYield)

/-- That an operand that stands before `rest` ends before `R`, too. -/
def EndsOperand (rest R : List Token) : Prop :=
  (kindOf R).closes = true ∨ kindOf R = kindOf rest ∧ (kindOf R).continues = true ∧
    ((kindOf R).isPostfixOperator = true → isBroken rest = false)

/-- That a phrase that begins with `T` is printed as `T'`, as far as the parser looks when it decides
what begins there: the printed phrase begins with a parenthesis or with the same word. -/
structure Echoes (b : Bool) (T T' : List Token) : Prop where
  broken : isBroken T' = b
  kind : kindOf T' = .openParen ∨ kindOf T' = kindOf T
  next : kindOf T' = .letKeyword →
    (kindOf T'.tail).closes = true ∨ kindOf T'.tail = kindOf T.tail
  function : startsFunction T' = true → startsFunction T = true

namespace Category

/-- The marks of the trees of a phrase. -/
noncomputable def marks : Category → List SyntaxTree → List Mark
  | .initializer, ts => initializerMarks ts.head?
  | .declarators, ts | .list .., ts => commaMarks ts
  | .statements, ts | .classMembers, ts => lineMarks ts
  | .signature .., ts =>
    .fixed .openParen :: (commaMarks ts.dropLast ++ .fixed .closeParen :: slotMarks ts.getLast?)
  | .arrowParameters, ts | .arguments, ts =>
    .fixed .openParen :: (commaMarks ts ++ [.fixed .closeParen])
  | .heritage, ts => heritageMarks ts.head?
  | .alternative, ts => alternativeMarks ts.head?
  | .defaultExport, ts => exportedMarks ts.head?
  | _, ts => slotMarks ts.head?

/-- Whether the phrases of the category are elements of lists. -/
def isElement : Category → Bool
  | .objectPatternElement | .arrayPatternElement | .parameter | .objectMember | .element => true
  | _ => false

/-- That the trees of a phrase that stands before `rest`, printed with a line ended in front of them
if `b` holds, may be printed before `R`. -/
def Ends (Γ : Context) (ts : List SyntaxTree) (rest : List Token) (b : Bool) (R : List Token) :
    Category → Prop
  | .declaredName _ => Γ.binds (kindOf R) = false
  | .list _ close item => kindOf R = close ∧ close.closes = true ∧ item.isElement = true
  | .statements | .classMembers => kindOf R = .closeBrace ∨ kindOf R = .endOfFile
  | .function role _ => role ≠ .arrow
  | .heritage => kindOf R = .openBrace ∧ kindOf rest = .openBrace
  | .returnValue => kindOf R = .semicolon ∧ b = false
  | .forInitializer => kindOf R = .semicolon
  | .expressionBefore k => kindOf R = k ∧ k.closes = true
  | .alternative | .bareStatement | .statement =>
    kindOf R = .elseKeyword → kindOf rest = .elseKeyword
  | .expression | .declarators | .variableList => (kindOf R).closes = true
  | .initializer | .declarator | .spread | .objectPatternElement | .arrayPatternElement | .parameter
  | .objectMember | .element => EndsElement rest R
  | .sequence | .assignment | .yield | .conditional | .arrow | .arrowBody =>
    EndsExpression ts rest R
  | .primary | .construction | .chain _ | .leftHandSide | .unary | .operands _ | .binary _ =>
    EndsOperand rest R
  | _ => True

/-- What is known of the beginning `T'` of what is printed for a phrase that begins with `T`. -/
def Shows (Γ : Context) (b : Bool) (T T' : List Token) : Category → Prop
  | .word | .name | .literal | .memberName | .classLike .. | .objectLiteral | .arguments =>
    kindOf T' = kindOf T ∧ isBroken T' = b
  | .initializer => kindOf T' = .assign ∨ (kindOf T').closes = true ∨ kindOf T' = .comma
  | .alternative => kindOf T' = .elseKeyword → kindOf T = .elseKeyword
  | .function .. => startsFunction T' = true ∧ (startsFunction T = true → Echoes b T T')
  | .arrow => startsArrow Γ T' = true ∧ Echoes b T T'
  | .sequence | .expression | .assignment | .yield | .conditional | .primary | .construction
  | .chain _ | .leftHandSide | .unary | .operands _ | .binary _ => Echoes b T T'
  | _ => True

/-- Whether phrases of the category end with a token of their own. -/
def endsItself : Category → Bool
  | .word | .name | .literal | .block | .signature .. | .function .. | .classLike .. | .objectLiteral
  | .arguments | .primary | .construction | .chain _ | .leftHandSide => true
  | _ => false

end Category

/-- That what is printed for the trees of a phrase is a phrase with the same trees, if what is printed
behind it does not go on with it. -/
structure Reprints (p : Typeset) (c : Category) (Γ : Context) (d : Nat) (T : List Token)
    (ts : List SyntaxTree) (rest : List Token) : Prop where
  prints : ∀ b ms, c.Ends Γ ts rest b (p.tokens (p.after b (c.marks ts)) ms) →
    Derives c Γ d (p.tokens b (c.marks ts ++ ms)) ts (p.tokens (p.after b (c.marks ts)) ms) ∧
      c.Shows Γ b T (p.tokens b (c.marks ts ++ ms))
  settled : c.endsItself = true → ∀ b, p.after b (c.marks ts) = false

/-! ### Ends -/

section

variable {p : Typeset} {k : TokenKind} {ts : List SyntaxTree} {T rest R : List Token} {t : Token}
  {b : Bool} {ms : List Mark} {Γ : Context}

theorem EndsElement.endsExpression (h : EndsElement rest R) : EndsExpression ts rest R :=
  h.imp_right fun ⟨hk, hrest⟩ => ⟨hk.trans hrest.symm, .inl hk⟩

theorem EndsElement.ne (h : EndsElement rest R) (hcloses : k.closes = false) (hcomma : k ≠ .comma) :
    kindOf R ≠ k := by
  rintro rfl
  rcases h with h | ⟨h, -⟩
  · exact Bool.false_ne_true (hcloses.symm.trans h)
  · exact hcomma h

theorem EndsElement.startsMember (h : EndsElement rest R) : (kindOf R).startsMember = false := by
  rcases h with h | ⟨h, -⟩
  · revert h
    cases kindOf R <;> decide
  · rw [h]
    rfl

theorem EndsExpression.closes (h : (kindOf R).closes = true) : EndsExpression ts rest R := .inl h

/-- What ends an expression ends its operands. -/
theorem EndsExpression.endsOperand (h : EndsExpression ts rest R) : EndsOperand rest R := by
  refine h.imp_right fun ⟨hkind, hk⟩ => ⟨hkind, ?_, ?_⟩
  · rcases hk with hk | hk | ⟨hk, -⟩ <;> simp [TokenKind.continues, hk]
  · intro hbehind
    rcases hk with hk | hk | ⟨hk, -⟩
    · rw [hk] at hbehind
      cases hbehind
    · rw [hk] at hbehind
      cases hbehind
    · have hapart : ¬((kindOf R).isPostfixOperator = true ∧ (kindOf R).isAssignment = true) := by
        cases kindOf R <;> decide
      exact absurd ⟨hbehind, hk⟩ hapart

/-- What ends an expression ends its last part. -/
theorem EndsExpression.last {s : ShapeOf SyntaxTree} {e : SyntaxTree}
    (h : EndsExpression [node s] rest R) (hlast : s.rightmost? = some e) :
    EndsExpression [e] rest R := by
  refine h.imp_right fun ⟨hkind, hk⟩ => ⟨hkind, hk.imp_right fun hk => hk.imp_right ?_⟩
  rintro ⟨hassign, hyield⟩
  refine ⟨hassign, List.forall_mem_singleton.2 fun he => ?_⟩
  exact hyield _ List.mem_cons_self (.last hlast he)

/-- A mark ends an operand if the mark stands behind it in the script. -/
theorem EndsOperand.mark (ht : t.kind = k) (hk : k.continues = true)
    (hbehind : k.isPostfixOperator = false) :
    EndsOperand (t :: T) (p.tokens b (.fixed k :: ms)) := by
  refine .inr ⟨by simp [ht], by simp [hk], fun h => ?_⟩
  simp [hbehind] at h

/-- A kind that neither ends phrases nor goes on with them stands behind neither. -/
theorem EndsOperand.ne (h : EndsOperand rest R) (hcloses : k.closes = false)
    (hcontinues : k.continues = false) : kindOf R ≠ k := by
  rintro rfl
  rcases h with h | ⟨-, h, -⟩
  · exact Bool.false_ne_true (hcloses.symm.trans h)
  · exact Bool.false_ne_true (hcontinues.symm.trans h)

/-- What does not stand behind a phrase does not stand behind its print. -/
theorem EndsOperand.ne_of_ne (h : EndsOperand rest R) (hcloses : k.closes = false)
    (hrest : kindOf rest ≠ k) : kindOf R ≠ k := by
  rintro rfl
  rcases h with h | ⟨heq, -, -⟩
  · exact Bool.false_ne_true (hcloses.symm.trans h)
  · exact hrest heq.symm

/-- The kinds that end expressions. -/
theorem EndsExpression.kind (h : EndsExpression ts rest R) : (kindOf R).closes = true ∨
    kindOf R = .comma ∨ kindOf R = .colon ∨ (kindOf R).isAssignment = true := by
  rcases h with h | ⟨-, h | h | ⟨h, -⟩⟩
  · exact .inl h
  · exact .inr (.inl h)
  · exact .inr (.inr (.inl h))
  · exact .inr (.inr (.inr h))

/-- What ends an expression makes no arrow function of it. -/
theorem EndsExpression.hasNoArrow (h : EndsExpression ts rest R) : HasNoArrow Γ R := by
  have hkind := h.kind
  refine hasNoArrow_of_kind ?_ ?_ ?_ <;> revert hkind <;> cases kindOf R <;>
    simp [TokenKind.closes, TokenKind.isAssignment, Context.binds, TokenKind.isContextual]

/-! ### Beginnings -/

theorem Echoes.of_kind (h : kindOf R = kindOf T ∧ isBroken R = b) (hlet : kindOf T ≠ .letKeyword)
    (hfunction : kindOf T ≠ .functionKeyword) (hasync : kindOf T ≠ .asyncKeyword) :
    Echoes b T R where
  broken := h.2
  kind := .inr h.1
  next heq := absurd (h.1.symm.trans heq) hlet
  function hstarts := by simp [startsFunction, h.1, hfunction, hasync] at hstarts

end

/-! ### Elements of lists -/

section

variable {c : Category} {Γ : Context} {d : Nat} {T rest R : List Token} {ts : List SyntaxTree}
  {t : SyntaxTree} {b : Bool}

theorem Category.ends_of_isElement (hc : c.isElement = true) (h : EndsElement rest R) :
    c.Ends Γ ts rest b R := by
  cases c <;> first | exact h | cases hc

theorem Category.marks_of_isElement (hc : c.isElement = true) : c.marks [t] = t.marks := by
  cases c <;> first | rfl | cases hc

theorem Category.isSingle_of_isElement (hc : c.isElement = true) : c.isSingle = true := by
  cases c <;> first | rfl | cases hc

theorem isHole_of_keywordShape? {k : TokenKind} {shape : ShapeOf SyntaxTree}
    (h : keywordShape? k = some shape) : shape.isHole = false := by
  cases k <;> cases h <;> rfl

/-- Holes stand in lists only. -/
theorem Derives.isHole_eq_false (h : Derives c Γ d T ts rest) (hc : c.isSingle = true) :
    ∀ t ∈ ts, t.shape.isHole = false := by
  induction h with
  | primaryKeyword hk => exact List.forall_mem_singleton.2 (isHole_of_keywordShape? hk)
  | _ => first
    | cases hc; done
    | simp_all [Category.isSingle, SyntaxTree.shape, ShapeOf.isHole]

end

/-! ### Categories that have the phrases of others -/

/-- A rule that takes a phrase of another category as it is. -/
theorem Reprints.lift {p : Typeset} {c c' : Category} {Γ Γ' : Context} {d d' : Nat}
    {T rest : List Token} {ts : List SyntaxTree} (h : Reprints p c Γ d T ts rest)
    (hmarks : c'.marks ts = c.marks ts)
    (hends : ∀ b R, c'.Ends Γ' ts rest b R → c.Ends Γ ts rest b R)
    (hrule : ∀ b T' R, c'.Ends Γ' ts rest b R → c.Shows Γ b T T' → Derives c Γ d T' ts R →
      Derives c' Γ' d' T' ts R ∧ c'.Shows Γ' b T T')
    (hsettled : c'.endsItself = true → c.endsItself = true) : Reprints p c' Γ' d' T ts rest where
  prints b ms := by
    rw [hmarks]
    intro hR
    obtain ⟨hderives, hshows⟩ := h.prints b ms (hends b _ hR)
    exact hrule b _ _ hR hshows hderives
  settled hc := by
    rw [hmarks]
    exact h.settled (hsettled hc)

end Grammar

end FunctionNaming
