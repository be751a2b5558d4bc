import FunctionNaming.Proofs.Grammar.Reads.Statement
import FunctionNaming.Proofs.Grammar.Reprints.Expression

/-!
Statements that are printed and read again.
-/

namespace FunctionNaming.Grammar

open SyntaxTree (node slotMarks alternativeMarks exportedMarks)

variable {c : Category} {k : TokenKind} {Γ : Context} {d : Nat} {T T' T₁ T₂ T₃ rest R : List Token}
  {t u o : Token} {ts v xs ys zs : List SyntaxTree} {e x : SyntaxTree} {b : Bool}

/-! ### Beginnings -/

theorem startsBinding_of_closes (h : k.closes = true) : Γ.startsBinding k = false := by
  revert h
  cases k <;> first | exact fun _ => rfl | exact fun h => absurd h Bool.false_ne_true

/-- What is printed for an expression begins a statement where the expression does. -/
theorem Echoes.startsExpressionStatement (h : Echoes b T T')
    (hT : startsExpressionStatement Γ T = true) : startsExpressionStatement Γ T' = true := by
  rcases h.kind with hk | hk
  · simp [Grammar.startsExpressionStatement, hk]
  · by_cases hlet : kindOf T' = .letKeyword
    · have hT : Γ.startsBinding (kindOf T.tail) = false := by
        simpa [Grammar.startsExpressionStatement, ← hk, hlet] using hT
      rcases h.next hlet with hnext | hnext
      · simp [Grammar.startsExpressionStatement, hlet, startsBinding_of_closes hnext]
      · simp [Grammar.startsExpressionStatement, hlet, hnext, hT]
    · by_cases hasync : kindOf T' = .asyncKeyword
      · have hfunction : ¬startsFunction T' = true :=
          fun hstarts => not_startsFunction hT (h.function hstarts)
        simpa [Grammar.startsExpressionStatement, startsFunction, hasync] using hfunction
      · rw [Grammar.startsExpressionStatement] at hT ⊢
        rw [← hk] at hT
        revert hT hlet hasync
        cases kindOf T' <;> simp

/-- What is printed for an expression begins the head of a loop where the expression does. -/
theorem Echoes.startsForExpression (h : Echoes b T T') (hT : startsForExpression Γ T = true) :
    startsForExpression Γ T' = true := by
  rcases h.kind with hk | hk
  · simp [Grammar.startsForExpression, hk]
  · by_cases hlet : kindOf T' = .letKeyword
    · have hT : Γ.startsBinding (kindOf T.tail) = false := by
        simpa [Grammar.startsForExpression, ← hk, hlet] using hT
      rcases h.next hlet with hnext | hnext
      · simp [Grammar.startsForExpression, hlet, startsBinding_of_closes hnext]
      · simp [Grammar.startsForExpression, hlet, hnext, hT]
    · rw [Grammar.startsForExpression] at hT ⊢
      rw [← hk] at hT
      revert hT hlet
      cases kindOf T' <;> simp

theorem Context.startsExpression_of_closes (h : k.closes = true) : Γ.startsExpression k = false := by
  revert h
  cases k <;> first | exact fun _ => rfl | exact fun h => absurd h Bool.false_ne_true

/-! ### Declarations -/

theorem isDeclaration_shape (x : SyntaxTree) : x.shape.isDeclaration = x.isDeclaration := by
  cases x
  rfl

theorem isDeclaration_of_keywordShape? {shape : ShapeOf SyntaxTree} (h : keywordShape? k = some shape) :
    shape.isDeclaration = false := by
  cases k <;> cases h <;> rfl

/-- What is read as an expression declares nothing. -/
theorem Derives.isDeclaration_of_isOperand (h : Derives c Γ d T ts rest) (hc : c.isOperand = true) :
    ∀ x ∈ ts, x.isDeclaration = false := by
  induction h with
  | primaryKeyword hk => exact List.forall_mem_singleton.2 (isDeclaration_of_keywordShape? hk)
  | primaryFunction _ h | primaryClass h | primaryObject h | primaryName _ h =>
    cases h
    exact List.forall_mem_singleton.2 rfl
  | primaryLiteral h => cases h <;> exact List.forall_mem_singleton.2 rfl
  | chainNew h ih => cases h <;> exact List.forall_mem_singleton.2 rfl
  | _ => first
    | cases hc; done
    | exact List.forall_mem_singleton.2 rfl
    | simp_all [Category.isOperand]

theorem Derives.isDeclaration_of_assignment (h : Derives .assignment Γ d T [e] rest) :
    e.isDeclaration = false := by
  cases h with
  | assignmentYield _ _ h => cases h <;> rfl
  | assignmentArrow _ _ h =>
    cases h
    rfl
  | noAssignment _ _ h _ => exact h.isDeclaration_of_isOperand rfl e List.mem_cons_self
  | assignment => rfl

namespace Reprints

variable {p : Typeset}

attribute [local simp] Category.marks Category.Ends Category.Shows Category.endsItself

/-- A printed semicolon ends a statement. -/
theorem terminates_semicolon (b : Bool) (ms : List Mark) :
    Terminates (p.tokens b (.fixed .semicolon :: ms)) (p.tokens false ms) :=
  .inl ⟨p.token ms.length (.fixed .semicolon) b, by simp, rfl⟩

theorem closes_semicolon (b : Bool) (ms : List Mark) :
    (kindOf (p.tokens b (.fixed .semicolon :: ms))).closes = true := by
  simp [TokenKind.closes]

theorem variableStatement (hl : Reprints p .variableList Γ d T [x] T₁) :
    Reprints p .variableStatement Γ d T [node (.variableStatement (some x))] rest := by
  refine ⟨fun b ms _ => ?_, nofun⟩
  have hl := hl.prints b (.fixed .semicolon :: ms) (closes_semicolon _ _)
  simpa using Derives.variableStatement hl.1 (terminates_semicolon _ _)

/-! ### Parts of statements -/

theorem noReturnValue : Reprints p .returnValue Γ d T [] rest := by
  refine ⟨fun b ms hR => ⟨.noReturnValue ?_, trivial⟩, nofun⟩
  have hk : kindOf (p.tokens b ms) = .semicolon := hR.1
  simp [endsStatement, hk]

theorem returnValue (he : Reprints p .expression Γ d T [e] rest) :
    Reprints p .returnValue Γ d T [e] rest := by
  refine he.lift rfl (fun _ _ h => by simp [h.1, TokenKind.closes]) (fun b T' R hR hshows h => ?_) nofun
  obtain ⟨-, rfl⟩ := hR
  exact ⟨.returnValue (Reprints.goesOn_of_startsExpression (h.first rfl) hshows.broken).2.2 h, trivial⟩

theorem noAlternative (hT : kindOf T ≠ .elseKeyword) : Reprints p .alternative Γ d T [] T :=
  ⟨fun _ _ hR => ⟨.noAlternative fun heq => hT (hR heq), hR⟩, nofun⟩

theorem alternative (ht : t.kind = .elseKeyword) (hx : Reprints p .statement Γ d T [x] rest) :
    Reprints p .alternative Γ d (t :: T) [x] rest := by
  refine ⟨fun b ms hR => ⟨?_, fun _ => ht⟩, nofun⟩
  have hx := hx.prints false ms (by simpa [alternativeMarks] using hR)
  simpa [alternativeMarks] using
    Derives.alternative (t := p.token (x.marks ++ ms).length (.fixed .elseKeyword) b) (by simp) hx.1

theorem noForInitializer : Reprints p .forInitializer Γ d T [] rest :=
  ⟨fun _ _ hR => ⟨.noForInitializer hR, trivial⟩, nofun⟩

theorem forVariables (hx : Reprints p .variableList Γ.insideForHead d T [x] rest) :
    Reprints p .forInitializer Γ d T [x] rest :=
  hx.lift rfl (fun _ _ h => by simp [show kindOf _ = _ from h, TokenKind.closes])
    (fun _ _ _ _ _ h => ⟨.forVariables h, trivial⟩) nofun

theorem forExpression (hT : startsForExpression Γ T = true)
    (he : Reprints p .expression Γ.insideForHead d T [e] rest) :
    Reprints p .forInitializer Γ d T [e] rest := by
  refine he.lift rfl (fun _ _ h => by simp [show kindOf _ = _ from h, TokenKind.closes])
    (fun _ T' _ _ hshows h => ⟨.forExpression (Echoes.startsForExpression hshows hT) ?_ h, trivial⟩)
    nofun
  intro heq
  have hfirst : Γ.insideForHead.startsExpression (kindOf T') = true := h.first rfl
  rw [heq, Context.startsExpression_of_closes rfl] at hfirst
  cases hfirst

theorem noExpression : Reprints p (.expressionBefore k) Γ d T [] rest :=
  ⟨fun _ _ hR => ⟨.noExpression hR.1, trivial⟩, nofun⟩

theorem expressionBefore (he : Reprints p .expression Γ d T [e] rest) :
    Reprints p (.expressionBefore k) Γ d T [e] rest := by
  refine he.lift rfl (fun _ _ h => (congrArg TokenKind.closes h.1).trans h.2)
    (fun _ T' _ hR _ h => ⟨.expressionBefore ?_ h, trivial⟩) nofun
  intro heq
  have hfirst : Γ.startsExpression (kindOf T') = true := h.first rfl
  rw [heq, Context.startsExpression_of_closes hR.2] at hfirst
  cases hfirst

/-! ### Declarations -/

theorem exportVariables (hx : Reprints p .variableStatement Γ d T [x] rest) :
    Reprints p .exportedDeclaration Γ d T [x] rest :=
  hx.lift rfl (fun _ _ _ => trivial) (fun _ _ _ _ _ h => ⟨.exportVariables h, trivial⟩) nofun

theorem exportFunction (hx : Reprints p (.function .declaration true) Γ d T [x] rest) :
    Reprints p .exportedDeclaration Γ d T [x] rest :=
  hx.lift rfl (fun _ _ _ => nofun)
    (fun _ _ _ _ hshows h => ⟨.exportFunction hshows.1 h, trivial⟩) nofun

theorem exportClass (hx : Reprints p (.classLike .declaration true) Γ d T [x] rest) :
    Reprints p .exportedDeclaration Γ d T [x] rest :=
  hx.lift rfl (fun _ _ _ => trivial) (fun _ _ _ _ _ h => ⟨.exportClass h, trivial⟩) nofun

theorem marks_defaultExport (hx : x.isDeclaration = true) :
    Category.defaultExport.marks [x] = x.marks := by
  simp [exportedMarks, isDeclaration_shape, hx]

theorem defaultFunction (hdeclares : x.isDeclaration = true)
    (hx : Reprints p (.function .declaration false) Γ d T [x] rest) :
    Reprints p .defaultExport Γ d T [x] rest :=
  hx.lift (marks_defaultExport hdeclares) (fun _ _ _ => nofun)
    (fun _ _ _ _ hshows h => ⟨.defaultFunction hshows.1 h, trivial⟩) nofun

theorem defaultClass (hdeclares : x.isDeclaration = true)
    (hx : Reprints p (.classLike .declaration false) Γ d T [x] rest) :
    Reprints p .defaultExport Γ d T [x] rest :=
  hx.lift (marks_defaultExport hdeclares) (fun _ _ _ => trivial)
    (fun _ _ _ _ _ h => ⟨.defaultClass h, trivial⟩) nofun

theorem defaultExpression (hdeclares : x.isDeclaration = false) (hT : ¬startsFunction T = true)
    (hclass : kindOf T ≠ .classKeyword) (hx : Reprints p .assignment Γ d T [x] T₁) :
    Reprints p .defaultExport Γ d T [x] rest := by
  have hmarks : Category.defaultExport.marks [x] = x.marks ++ [.fixed .semicolon] := by
    simp [exportedMarks, isDeclaration_shape, hdeclares]
  refine ⟨fun b ms _ => ?_, fun h => absurd h Bool.false_ne_true⟩
  obtain ⟨hx, hshows⟩ := hx.prints b (.fixed .semicolon :: ms) (.inl (closes_semicolon _ _))
  have hne : kindOf (p.tokens b (x.marks ++ .fixed .semicolon :: ms)) ≠ .classKeyword := by
    rcases hshows.kind with hk | hk
    · exact fun heq => absurd (hk.symm.trans heq) (by decide)
    · exact fun heq => hclass (hk.symm.trans heq)
  have hderives := Derives.defaultExpression (fun h => hT (hshows.function h)) hne hx
    (terminates_semicolon _ _)
  rw [hmarks]
  simpa using hderives

/-! ### Statements -/

theorem blockStatement (hx : Reprints p .block Γ d T [x] rest) :
    Reprints p .bareStatement Γ d T [x] rest :=
  hx.lift rfl (fun _ _ _ => trivial) (fun _ _ _ _ _ h => ⟨.blockStatement h, trivial⟩) nofun

theorem emptyStatement : Reprints p .bareStatement Γ d T [node .emptyStatement] rest := by
  refine ⟨fun b ms _ => ?_, nofun⟩
  simpa using Derives.emptyStatement (Γ := Γ) (d := d) (T := p.tokens false ms)
    (t := p.token ms.length (.fixed .semicolon) b) (by simp)

theorem «variables» (hx : Reprints p .variableStatement Γ d T [x] rest) :
    Reprints p .bareStatement Γ d T [x] rest :=
  hx.lift rfl (fun _ _ _ => trivial) (fun _ _ _ _ _ h => ⟨.variables h, trivial⟩) nofun

theorem functionStatement (hx : Reprints p (.function .declaration true) Γ d T [x] rest) :
    Reprints p .bareStatement Γ d T [x] rest :=
  hx.lift rfl (fun _ _ _ => nofun)
    (fun _ _ _ _ hshows h => ⟨.functionStatement hshows.1 h, trivial⟩) nofun

theorem classStatement (hx : Reprints p (.classLike .declaration true) Γ d T [x] rest) :
    Reprints p .bareStatement Γ d T [x] rest :=
  hx.lift rfl (fun _ _ _ => trivial) (fun _ _ _ _ _ h => ⟨.classStatement h, trivial⟩) nofun

theorem ifStatement (he : Reprints p .expression Γ d T [e] (u :: T₁))
    (hx : Reprints p .statement Γ d T₁ [x] T₂) (hys : Reprints p .alternative Γ d T₂ ys rest) :
    Reprints p .bareStatement Γ d (t :: o :: T)
      [node (.ifStatement (some e) (some x) ys.head?)] rest := by
  refine ⟨fun b ms hR => ?_, nofun⟩
  obtain ⟨hys, hshows⟩ := hys.prints (p.after false x.marks) ms (by simpa using hR)
  have hx := hx.prints false (alternativeMarks ys.head? ++ ms) hshows
  have he := he.prints false (.fixed .closeParen :: (x.marks ++ (alternativeMarks ys.head? ++ ms)))
    (by simp [TokenKind.closes])
  have hderives : Derives .bareStatement Γ d (p.tokens b (.fixed .ifKeyword :: .fixed .openParen ::
      (e.marks ++ .fixed .closeParen :: (x.marks ++ (alternativeMarks ys.head? ++ ms))))) _ _ :=
    .ifStatement (by simp) (by simp) he.1 (by simp) hx.1 hys
  simpa using hderives

theorem whileStatement (he : Reprints p .expression Γ d T [e] (u :: T₁))
    (hx : Reprints p .statement Γ d T₁ [x] rest) :
    Reprints p .bareStatement Γ d (t :: o :: T) [node (.whileStatement (some e) (some x))] rest := by
  refine ⟨fun b ms hR => ?_, nofun⟩
  have hx := hx.prints false ms (by simpa using hR)
  have he := he.prints false (.fixed .closeParen :: (x.marks ++ ms)) (by simp [TokenKind.closes])
  have hderives : Derives .bareStatement Γ d (p.tokens b (.fixed .whileKeyword ::
      .fixed .openParen :: (e.marks ++ .fixed .closeParen :: (x.marks ++ ms)))) _ _ :=
    .whileStatement (by simp) (by simp) he.1 (by simp) hx.1
  simpa using hderives

theorem forStatement {R₁ R₂ R₃ : List Token} (hxs : Reprints p .forInitializer Γ d T xs R₁)
    (hys : Reprints p (.expressionBefore .semicolon) Γ d T₁ ys R₂)
    (hzs : Reprints p (.expressionBefore .closeParen) Γ d T₂ zs R₃)
    (hx : Reprints p .statement Γ d T₃ [x] rest) :
    Reprints p .bareStatement Γ d (t :: o :: T)
      [node (.forStatement xs.head? ys.head? zs.head? (some x))] rest := by
  refine ⟨fun b ms hR => ?_, nofun⟩
  have hx := hx.prints false ms (by simpa using hR)
  have hzs := hzs.prints false (.fixed .closeParen :: (x.marks ++ ms)) (by simp [TokenKind.closes])
  have hys := hys.prints false (.fixed .semicolon :: (slotMarks zs.head? ++ .fixed .closeParen ::
    (x.marks ++ ms))) (by simp [TokenKind.closes])
  have hxs := hxs.prints false (.fixed .semicolon :: (slotMarks ys.head? ++ .fixed .semicolon ::
    (slotMarks zs.head? ++ .fixed .closeParen :: (x.marks ++ ms)))) (by simp)
  have hderives : Derives .bareStatement Γ d (p.tokens b (.fixed .forKeyword ::
      .fixed .openParen :: (slotMarks xs.head? ++ .fixed .semicolon :: (slotMarks ys.head? ++
        .fixed .semicolon :: (slotMarks zs.head? ++ .fixed .closeParen :: (x.marks ++ ms)))))) _ _ :=
    .forStatement (by simp) (by simp) hxs.1 (by simp) hys.1 (by simp) hzs.1 (by simp) hx.1
  simpa using hderives

theorem returnStatement (hv : Reprints p .returnValue Γ d T v T₁) :
    Reprints p .bareStatement Γ d (t :: T) [node (.returnStatement v.head?)] rest := by
  refine ⟨fun b ms _ => ?_, nofun⟩
  have hv := hv.prints false (.fixed .semicolon :: ms) (by simp)
  have hderives : Derives .bareStatement Γ d (p.tokens b (.fixed .returnKeyword ::
      (slotMarks v.head? ++ .fixed .semicolon :: ms))) _ _ :=
    .returnStatement (by simp) hv.1 (terminates_semicolon _ _)
  simpa using hderives

theorem throwStatement (he : Reprints p .expression Γ d T [e] T₁) :
    Reprints p .bareStatement Γ d (t :: T) [node (.throwStatement (some e))] rest := by
  refine ⟨fun b ms _ => ?_, nofun⟩
  have he := he.prints false (.fixed .semicolon :: ms) (closes_semicolon _ _)
  have hderives : Derives .bareStatement Γ d (p.tokens b (.fixed .throwKeyword ::
      (e.marks ++ .fixed .semicolon :: ms))) _ _ :=
    .throwStatement (by simp) he.1 (terminates_semicolon _ _)
  simpa using hderives

theorem exportDefault (hx : Reprints p .defaultExport Γ d T [x] rest) :
    Reprints p .bareStatement Γ d (t :: o :: T) [node (.exportDefault (some x))] rest := by
  refine ⟨fun b ms _ => ?_, nofun⟩
  have hx := hx.prints false ms trivial
  have hderives : Derives .bareStatement Γ d (p.tokens b (.fixed .exportKeyword ::
      .fixed .defaultKeyword :: (exportedMarks (some x) ++ ms))) _ _ :=
    .exportDefault (by simp) (by simp) hx.1
  simpa using hderives

theorem exportDeclaration (hx : Reprints p .exportedDeclaration Γ d T [x] rest) :
    Reprints p .bareStatement Γ d (t :: T) [node (.exportDeclaration (some x))] rest := by
  refine ⟨fun b ms _ => ?_, nofun⟩
  have hx := hx.prints false ms trivial
  have hderives : Derives .bareStatement Γ d (p.tokens b (.fixed .exportKeyword ::
      (x.marks ++ ms))) _ _ :=
    .exportDeclaration (by simp) hx.1
  simpa using hderives

theorem expressionStatement (hT : startsExpressionStatement Γ T = true)
    (he : Reprints p .expression Γ d T [e] T₁) :
    Reprints p .bareStatement Γ d T [node (.expressionStatement (some e))] rest := by
  refine ⟨fun b ms _ => ?_, nofun⟩
  obtain ⟨he, hshows⟩ := he.prints b (.fixed .semicolon :: ms) (closes_semicolon _ _)
  have hderives := Derives.expressionStatement (Echoes.startsExpressionStatement hshows hT) he
    (terminates_semicolon _ _)
  simpa using hderives

theorem statement (hd : d < maxNesting) (hx : Reprints p .bareStatement Γ (d + 1) T [x] rest) :
    Reprints p .statement Γ d T [x] rest :=
  hx.lift rfl (fun _ _ h => h) (fun _ _ _ _ _ h => ⟨.statement hd h, trivial⟩) nofun

end Reprints

end FunctionNaming.Grammar
