import FunctionNaming.Proofs.Grammar.Halts.Function

/-!
What members and expressions cost. The price of an expression grows with the number of rules that are
tried before one passes a token.
-/

namespace FunctionNaming.Grammar

variable {n m r : Nat} {s : State} {parse : Rule → Parser Slot} (hparse : Callable n m parse)

include hparse

/-! ### Members -/

theorem affords_methodRest (hs : s.Ready n m 6) (start : Nat) (k : Modifiers) (name : NodeId) :
    Affords n (methodRest parse start k name) s fun _ => 82 :=
  (affords_signatureAndBody hparse hs _ _).bind hs fun ⟨_, _⟩ s hs => affords_finish _ _ (by simp)

theorem affords_accessorRest (hs : s.Ready n m 6) (start : Nat) (role : AccessorRole)
    (isStatic : Bool) (name : NodeId) :
    Affords n (accessorRest parse start role isStatic name) s fun _ => 82 :=
  (affords_signatureAndBody hparse hs _ _).bind hs fun ⟨_, _⟩ s hs => affords_finish _ _ (by simp)

theorem affords_spread (hs : s.Ready n m r) (hk : kindOf s.upcoming = .ellipsis) :
    Affords n (spread parse) s fun _ => 0 := by
  refine tells_position.bind (.pass hs (affords_expect_of_eq hs (by decide) hk) (by simp) ?_)
  intro _ s hs
  exact (hparse .assignment (by simp) hs).bind hs fun value s hs => affords_finish _ _ (by simp)

theorem affords_objectMember (hs : s.Ready n m r) :
    Affords n (objectMember parse) s fun _ => 11 := by
  refine (tells_isAt _).bind (.ite (fun hk => ?_) fun _ => tells_position.bind ?_)
  · exact (affords_spread hparse hs (eq_of_beq hk)).bind hs fun _ s hs => .pure (by simp)
  · refine (affords_modifiers hs false).bind hs fun modifiers s hs => tells_isIdentifier.bind ?_
    refine .bindSome hs (affords_memberName hparse hs) (by simp) (fun s hs => .pure (by simp)) ?_
    intro name s hs
    obtain ⟨isStatic, isAsync, isGenerator, accessor⟩ := modifiers
    cases accessor with
    | some role =>
      refine (affords_accessorRest hparse hs _ role _ name).bind hs fun _ s hs => .pure ?_
      simp
    | none =>
      refine (tells_isAt _).bind (.ite (fun _ => ?_) fun _ => ?_)
      · refine (affords_methodRest hparse hs _ _ name).bind hs fun _ s hs => .pure ?_
        simp
      · refine .accept hs (by decide) (fun s hs => ?_) fun _ => .ite nofun fun _ => ?_
        · refine (hparse .assignment (by simp) hs).bind hs fun value s hs => ?_
          exact affords_node _ _ (by simp)
        · refine .ite (fun _ => affords_node _ _ (by simp)) fun _ => ?_
          refine (affords_expect _).bind hs fun _ s hs => ?_
          exact affords_node _ _ (by simp)

theorem affords_objectLiteral (hs : s.Ready n m r) (hk : kindOf s.upcoming = .openBrace) :
    Affords n (objectLiteral parse) s fun _ => 0 := by
  refine tells_position.bind (.pass hs (affords_expect_of_eq hs (by decide) hk) (by simp) ?_)
  intro _ s hs
  refine (Affords.commaList hs (by decide) (by decide) fun s hs =>
    affords_objectMember hparse hs).bind hs fun members s hs => ?_
  exact (affords_expect _).bind hs fun _ s hs => affords_finish _ _ (by simp)

omit hparse in
theorem looks_isConstructorName (name : NodeId) : Looks n (isConstructorName name) s :=
  ⟨rfl, 1, rfl, Nat.le_add_left _ _⟩

theorem affords_classMember (hs : s.Ready n m r) :
    Affords n (classMember parse) s fun _ => 11 := by
  refine tells_position.bind ((affords_staticModifier hs).bind hs fun isStatic s hs => ?_)
  refine (affords_modifiers hs isStatic).bind hs fun modifiers s hs => ?_
  refine .bindSome hs (affords_memberName hparse hs) (by simp) (fun s hs => .pure (by simp)) ?_
  intro name s hs
  have hmethod : ∀ (start : Nat) (modifiers : Modifiers) (s : State), s.Ready n m 6 →
      Affords n (do return some (← methodRest parse start modifiers name)) s fun _ => 82 :=
    fun start modifiers s hs =>
      (affords_methodRest hparse hs start modifiers name).bind hs fun _ s hs => .pure (by simp)
  obtain ⟨isStatic, isAsync, isGenerator, accessor⟩ := modifiers
  cases accessor with
  | some role =>
    refine (affords_accessorRest hparse hs _ role _ name).bind hs fun _ s hs => .pure ?_
    simp
  | none =>
    refine (tells_isAt _).bind (.ite (fun _ => ?_) fun _ => .ite (fun _ => ?_) fun _ => ?_)
    · refine (looks_isConstructorName name).bind fun b s' hupcoming => ?_
      have hs' := hs.of_upcoming hupcoming
      refine .ite (fun _ => ?_) fun _ => (hmethod _ _ s' hs').mono (by simp)
      refine (affords_signatureAndBody hparse hs' _ _).bind hs' fun ⟨parameters, body⟩ s hs => ?_
      exact affords_node _ _ (by simp)
    · exact (hmethod _ _ s hs).mono (by simp)
    · refine (affords_initializer hparse hs).bind hs fun value s hs => ?_
      exact (affords_semicolon hs).bind hs fun _ s hs => affords_node _ _ (by simp)

omit hparse in
/-- Either the member passes a token, or the first token that is left is skipped. -/
theorem remaining_classMember_lt (hs : s.Ready n m r) (hk : kindOf s.upcoming ≠ .endOfFile) :
    (Parser.run (do
      let before ← cursor
      let member ← classMember parse
      if (← cursor) == before then advance
      return (member, true)) s).2.remaining < s.remaining := by
  have hkeeps := (classMember parse).keeps s
  generalize hs₁ : ((classMember parse).run s).2 = s₁ at hkeeps
  have hrun : Parser.run (do
      let before ← cursor
      let member ← classMember parse
      if (← cursor) == before then advance
      return (member, true)) s = Parser.run (if s₁.cursor == s.cursor then do
          advance
          return (((classMember parse).run s).1, true)
        else return (((classMember parse).run s).1, true)) s₁ := by
    subst hs₁
    rfl
  refine remaining_lt_of_skips hs hk hkeeps (hrun ▸ Parser.keeps _ s₁) fun hupcoming hcursor => ?_
  refine ⟨s₁, rfl, ?_⟩
  rw [hrun, if_pos (by simp [hcursor])]
  rfl

theorem affords_classMembers (hs : s.Ready n m r) :
    Affords n (classMembers parse) s fun _ => 18 := by
  refine (Affords.collect (x := 16) (y := 1) hs (by decide) (by decide) (fun s hs => ?_)
    fun s hs hmore => ?_).mono (by simp)
  · refine (tells_isAtOrEnd _).bind (.ite (fun _ => .pure (by simp)) fun _ => ?_)
    refine .accept hs (by decide) (fun s hs => .pure (by simp)) fun _ => .ite nofun fun _ => ?_
    refine (tells_inspect _).bind ((affords_classMember hparse hs).bind hs fun member s hs => ?_)
    refine (tells_inspect _).bind (.ite (fun _ => ?_) fun _ => .pure (by simp))
    exact affords_advance_anywhere.bind hs fun _ s hs => .pure (by simp)
  · rw [Parser.run_bind, run_isAtOrEnd] at hmore ⊢
    split at hmore
    · simp at hmore
    · next hend =>
      have hk : kindOf s.upcoming ≠ .endOfFile := fun hk => hend (by simp [hk])
      rw [if_neg hend, Parser.run_bind]
      by_cases hsemicolon : kindOf s.upcoming = .semicolon
      · rw [run_accept_of_eq hsemicolon]
        have hpassed := State.remaining_advance_lt hs.1 hk
        show s.advance.remaining < s.remaining
        omega
      · rw [run_accept_of_ne hsemicolon]
        exact remaining_classMember_lt hs hk

theorem affords_heritage (hs : s.Ready n m r) : Affords n (heritage parse) s fun _ => 1 := by
  refine .accept hs (by decide) (fun s hs => ?_) fun _ => .pure (by simp)
  exact (hparse .leftHandSide (by simp) hs).mono (by simp)

theorem affords_classLike (hs : s.Ready n m r) (hk : kindOf s.upcoming = .classKeyword)
    (role : ClassRole) (nameRequired : Bool) :
    Affords n (classLike parse role nameRequired) s fun _ => 0 := by
  refine tells_position.bind (.pass hs (affords_expect_of_eq hs (by decide) hk) (by simp) ?_)
  intro _ s hs
  refine (affords_declaredName hs nameRequired).bind hs fun name s hs => ?_
  refine (affords_heritage hparse hs).bind hs fun extended s hs => ?_
  refine (affords_expect _).bind hs fun _ s hs => ?_
  refine (affords_classMembers hparse hs).bind hs fun members s hs => ?_
  exact (affords_expect _).bind hs fun _ s hs => affords_finish _ _ (by simp)

/-! ### Comma and assignment -/

theorem affords_expression (hr : 4 < r) (hs : s.Ready n m r) :
    Affords n (expression parse) s fun _ => 40 := by
  refine tells_position.bind ((hparse .assignment hr hs).bind hs fun first s hs => ?_)
  -- Each round that goes on begins with a comma.
  refine (Affords.iterate (y := 1) hs fun left s hs => ?_).mono (by simp)
  refine (tells_isAt _).bind (.ite (fun hcomma => ?_) fun _ => .pure (by simp))
  have hk : kindOf s.upcoming = .comma := eq_of_beq (Bool.and_eq_true_iff.1 hcomma).2
  refine .pass hs (affords_advance hs (by simp [hk])) (by simp) fun _ s hs => ?_
  refine (hparse .assignment (by simp) hs).bind hs fun right s hs => ?_
  exact (looks_finish _ _).bind fun _ _ _ => .pure (by simp)

omit hparse in
theorem affords_yieldStar : Affords n yieldStar s fun _ => 2 := by
  refine tells_afterLineBreak.bind (.ite (fun _ => .pure (by simp)) fun _ => ?_)
  exact (affords_accept _).mono (by simp)

theorem affords_yieldExpression (hs : s.Ready n m r) (hk : kindOf s.upcoming = .yieldKeyword) :
    Affords n (yieldExpression parse) s fun _ => 0 := by
  refine tells_position.bind (.pass hs (affords_expect_of_eq hs (by decide) hk) (by simp) ?_)
  intro _ s hs
  refine affords_yieldStar.bind hs fun delegates s hs => tells_endsYield.bind ?_
  have hmissing : Affords n (pure none : Parser Slot) s fun _ => 0 := .pure (le_refl 0)
  refine .ite (fun _ => ?_) fun _ => hmissing.bind hs fun operand s hs => affords_finish _ _ (by simp)
  exact (hparse .assignment (by simp) hs).bind hs fun operand s hs => affords_finish _ _ (by simp)

theorem affords_conditionalExpression (hr : 3 < r) (hs : s.Ready n m r) :
    Affords n (conditionalExpression parse) s fun _ => 31 := by
  refine tells_position.bind ((hparse (.binary 0) hr hs).bind hs fun condition s hs => ?_)
  refine .ite (fun _ => .pure (by simp)) fun _ => ?_
  refine .accept hs (by decide) (fun s hs => ?_) fun _ => .pure (by simp)
  refine (Affords.outsideForHead hs fun s _ hs =>
    hparse .assignment (by simp) hs).bind hs fun whenTrue s hs => ?_
  refine (affords_expect _).bind hs fun _ s hs => ?_
  refine (hparse .assignment (by simp) hs).bind hs fun whenFalse s hs => ?_
  exact affords_node _ _ (by simp)

theorem affords_assignmentExpression (hs : s.Ready n m 4) :
    Affords n (assignmentExpression parse) s fun _ => Rule.assignment.price := by
  refine .nested hs (by decide) fun s _ hs => (tells_isAt _).bind ((tells_inspect _).bind ?_)
  refine .ite (fun hyield => ?_) fun _ => ?_
  · have hk : kindOf s.upcoming = .yieldKeyword := eq_of_beq (Bool.and_eq_true_iff.1 hyield).1
    exact (affords_yieldExpression hparse hs hk).bind hs fun _ s hs => .pure (by simp)
  · refine (tells_startsArrowFunction hs).bind (.ite (fun harrow => ?_) fun _ => ?_)
    · exact (affords_arrowFunction hparse hs harrow).bind hs fun _ s hs => .pure (by simp)
    · refine tells_position.bind ?_
      refine (affords_conditionalExpression hparse (by decide) hs).bind hs fun left s hs => ?_
      refine tells_kind.bind (.ite (fun hassigns => ?_) fun _ => .pure (by simp))
      have hk : kindOf s.upcoming ≠ .endOfFile := fun hk =>
        absurd (Bool.and_eq_true_iff.1 (hk ▸ hassigns)).2 (by decide)
      refine .pass hs (affords_advance hs hk) (by simp) fun _ s hs => ?_
      refine (hparse .assignment (by simp) hs).bind hs fun right s hs => ?_
      exact affords_node _ _ (by simp)

/-! ### Operators -/

theorem affords_binaryExpression (above : Nat) (hs : s.Ready n m 3) :
    Affords n (binaryExpression parse above) s fun _ => (Rule.binary above).price := by
  refine tells_position.bind ((hparse .unary (by decide) hs).bind hs fun first s hs => ?_)
  refine .ite (fun _ => .pure (by simp)) fun _ => ?_
  refine (Affords.iterate (y := 2) hs fun left s hs => tells_kind.bind ?_).mono (by simp)
  split
  · next precedence hprecedence =>
    have hk : kindOf s.upcoming ≠ .endOfFile := fun hk => by
      rw [hk] at hprecedence
      cases hprecedence
    refine .ite (fun _ => .pure (by simp)) fun _ => (tells_inspect _).bind ?_
    refine .ite (fun _ => .pure (by simp)) fun _ => ?_
    refine .pass hs (affords_advance hs hk) (by simp) fun _ s hs => ?_
    refine (hparse (.binary precedence) (by simp) hs).bind hs fun right s hs => ?_
    exact (looks_finish _ _).bind fun _ _ _ => .pure (by simp)
  · exact .pure (by simp)

theorem affords_unaryExpression (hs : s.Ready n m 2) :
    Affords n (unaryExpression parse) s fun _ => Rule.unary.price := by
  refine tells_position.bind (tells_kind.bind (.ite (fun hprefix => ?_) fun _ => ?_))
  · have hk : kindOf s.upcoming ≠ .endOfFile := fun hk => by
      rw [hk] at hprefix
      cases hprefix
    refine (Affords.nested (y := 2) hs (by decide) fun s hupcoming hs => ?_).mono (by simp)
    refine .pass hs (affords_advance hs (hupcoming ▸ hk)) (by simp) fun _ s hs => ?_
    refine (hparse .unary (by simp) hs).bind hs fun operand s hs => ?_
    exact affords_node _ _ (by simp)
  · refine (hparse .leftHandSide (by decide) hs).bind hs fun operand s hs => tells_kind.bind ?_
    refine tells_afterLineBreak.bind (.ite (fun hpostfix => ?_) fun _ => .pure (by simp))
    have hk : kindOf s.upcoming ≠ .endOfFile := fun hk => by
      simp [hk, show TokenKind.endOfFile.isPostfixOperator = false from rfl] at hpostfix
    refine .pass hs (affords_advance hs hk) (by simp) fun _ s hs => ?_
    exact affords_node _ _ (by simp)

/-! ### Expressions that stand by themselves -/

theorem affords_parenthesized (hs : s.Ready n m r) (hk : kindOf s.upcoming = .openParen) :
    Affords n (parenthesized parse) s fun _ => 0 := by
  refine tells_position.bind (.pass hs (affords_expect_of_eq hs (by decide) hk) (by simp) ?_)
  intro _ s hs
  refine (Affords.outsideForHead hs fun s _ hs =>
    affords_expression hparse (by decide) hs).bind hs fun inner s hs => ?_
  exact (affords_expect _).bind hs fun _ s hs => affords_finish _ _ (by simp)

theorem affords_element (hs : s.Ready n m 6) : Affords n (element parse) s fun _ => 38 := by
  refine (tells_isAt _).bind (.ite (fun hk => ?_) fun _ => ?_)
  · exact (affords_spread hparse hs (eq_of_beq hk)).bind hs fun _ s hs => .pure (by simp)
  · exact (hparse .assignment (by simp) hs).mono (by simp)

theorem affords_arrayLiteral (hs : s.Ready n m r) (hk : kindOf s.upcoming = .openBracket) :
    Affords n (arrayLiteral parse) s fun _ => 0 := by
  refine tells_position.bind (.pass hs (affords_expect_of_eq hs (by decide) hk) (by simp) ?_)
  intro _ s hs
  refine (Affords.outsideForHead hs fun s _ hs => .commaListWithHoles hs (by decide) (by decide)
    fun s hs => affords_element hparse hs).bind hs fun elements s hs => ?_
  exact (affords_expect _).bind hs fun _ s hs => affords_finish _ _ (by simp)

theorem affords_primaryExpression (hs : s.Ready n m r) :
    Affords n (primaryExpression parse) s fun _ => 7 := by
  have hkeyword : ∀ shape : Shape, kindOf s.upcoming ≠ .endOfFile →
      Affords n (some <$> keywordExpression shape) s fun _ => 2 := fun shape hk =>
    .map ((affords_keywordExpression hs hk shape).mono (by simp))
  refine tells_kind.bind ?_
  split
  · next hk => exact .map ((affords_functionExpression hparse hs (.inl hk)).mono (by simp))
  · next hk => exact .map ((affords_classLike hparse hs hk _ _).mono (by simp))
  · next hk => exact .map ((affords_parenthesized hparse hs hk).mono (by simp))
  · next hk => exact .map ((affords_arrayLiteral hparse hs hk).mono (by simp))
  · next hk => exact .map ((affords_objectLiteral hparse hs hk).mono (by simp))
  · next hk => exact (hkeyword _ (by simp [hk])).mono (by simp)
  · next hk => exact (hkeyword _ (by simp [hk])).mono (by simp)
  · next hk => exact (hkeyword _ (by simp [hk])).mono (by simp)
  · next hk => exact (hkeyword _ (by simp [hk])).mono (by simp)
  · next hk => exact (hkeyword _ (by simp [hk])).mono (by simp)
  · next hk => exact .map ((affords_literal hs (by simp [hk])).mono (by simp))
  · next hk => exact .map ((affords_literal hs (by simp [hk])).mono (by simp))
  · refine .lookFor hs looks_startsAsyncFunction rfl (fun s hs hk => ?_) fun s hs _ => ?_
    · refine (affords_functionExpression hparse hs (.inr hk)).bind hs fun _ s hs => ?_
      exact .pure (by simp)
    · refine tells_isIdentifier.bind (.ite (fun _ => ?_) fun _ => ?_)
      · exact (affords_identifier hs).bind hs fun _ s hs => .pure (by simp)
      · exact (looks_complain _).bind fun _ s _ => .pure (by simp)

/-! ### Accesses and calls -/

theorem affords_argumentList (hs : s.Ready n m r) (hk : kindOf s.upcoming = .openParen) :
    Affords n (argumentList parse) s fun _ => 44 - gain := by
  refine .pass hs (affords_expect_of_eq hs (by decide) hk) (by simp) fun _ s hs => ?_
  refine (Affords.outsideForHead hs fun s _ hs => .commaList hs (by decide) (by decide)
    fun s hs => affords_element hparse hs).bind hs fun elements s hs => ?_
  exact (affords_expect _).bind hs fun _ s hs => .pure (by simp)

theorem affords_accesses (hs : s.Ready n m r) (start : Nat) (object : Slot) (allowCalls : Bool) :
    Affords n (accesses parse start object allowCalls) s fun _ => 2 := by
  refine (Affords.iterate (y := 1) hs fun object s hs => tells_kind.bind ?_).mono (by simp)
  split
  · next hk =>
    refine .pass hs (affords_advance hs (by simp [hk])) (by simp) fun _ s hs => ?_
    exact (affords_propertyWord hs).bind hs fun name s hs => affords_node _ _ (by simp)
  · next hk =>
    refine .pass hs (affords_advance hs (by simp [hk])) (by simp) fun _ s hs => ?_
    refine (Affords.outsideForHead hs fun s _ hs =>
      affords_expression hparse (by decide) hs).bind hs fun argument s hs => ?_
    exact (affords_expect _).bind hs fun _ s hs => affords_node _ _ (by simp)
  · next hk =>
    refine .ite (fun _ => ?_) fun _ => .pure (by simp)
    exact (affords_argumentList hparse hs hk).bind hs fun arguments s hs => affords_node _ _ (by simp)
  · exact .pure (by simp)

theorem affords_chain_of_ne (hs : s.Ready n m r) (hk : kindOf s.upcoming ≠ .newKeyword)
    (allowCalls : Bool) : Affords n (chain parse allowCalls) s fun _ => 11 := by
  refine tells_position.bind ((tells_isAt _).bind ?_)
  rw [beq_eq_false_iff_ne.2 hk]
  refine (affords_primaryExpression hparse hs).bind hs fun object s hs => ?_
  refine .ite (fun _ => .pure (by simp)) fun _ => ?_
  exact (affords_accesses hparse hs _ _ _).mono (by simp)

theorem affords_chain (hr : 0 < r) (hs : s.Ready n m r) (allowCalls : Bool) :
    Affords n (chain parse allowCalls) s fun _ => Rule.leftHandSide.price := by
  have hrest : ∀ (start : Nat) (object : Slot) (s : State), s.Ready n m r → Affords n
      (if object.isNone then pure none else accesses parse start object allowCalls) s fun _ => 2 :=
    fun start object s hs =>
      .ite (fun _ => .pure (by simp)) fun _ => affords_accesses hparse hs start object allowCalls
  refine tells_position.bind ((tells_isAt _).bind (.ite (fun _ => ?_) fun _ => ?_))
  · exact (hparse .construction hr hs).bind hs fun object s hs =>
      (hrest _ object s hs).mono (by simp)
  · exact (affords_primaryExpression hparse hs).bind hs fun object s hs =>
      (hrest _ object s hs).mono (by simp)

theorem affords_construction (hs : s.Ready n m r) :
    Affords n (construction parse) s fun _ => Rule.construction.price := by
  have hrest : ∀ {r} (start : Nat) (callee : Slot) (s : State), s.Ready n m r → Affords n (do
      let arguments ← if ← isAt .openParen then some <$> argumentList parse else pure none
      return some (← finish start (.new callee arguments))) s fun _ => 2 := by
    intro r start callee s hs
    have hmissing : Affords n (pure none : Parser (Option (List NodeId))) s fun _ => 0 :=
      .pure (le_refl 0)
    refine (tells_isAt _).bind (.ite (fun hk => ?_) fun _ => ?_)
    · refine (Affords.map (y := fun _ => 0) ((affords_argumentList hparse hs (eq_of_beq hk)).mono
        (by simp))).bind hs fun arguments s hs => affords_node _ _ (by simp)
    · exact hmissing.bind hs fun arguments s hs => affords_node _ _ (by simp)
  refine .nested hs (by decide) fun s _ hs => tells_position.bind ?_
  -- Without the word `new` no token is passed before the chain, but then the chain does not begin with
  -- that word either, and refers to no other rule before it passes a token.
  by_cases hk : kindOf s.upcoming = .newKeyword
  · refine .pass hs (affords_expect_of_eq hs (by decide) hk) (by simp) fun _ s hs => ?_
    refine (affords_chain hparse (by decide) hs _).bind hs fun callee s hs => ?_
    exact (hrest _ _ s hs).mono (by simp)
  · refine (looks_expect_of_ne hk).bind fun _ s' hupcoming => ?_
    have hs' := hs.of_upcoming hupcoming
    refine (affords_chain_of_ne hparse hs' (hupcoming ▸ hk) _).bind hs' fun callee s hs => ?_
    exact (hrest _ _ s hs).mono (by simp)

end FunctionNaming.Grammar
