import FunctionNaming.Proofs.Grammar.Halts.Expression

/-!
What statements cost, and with them the grammar as a whole.
-/

namespace FunctionNaming.Grammar

variable {n m r : Nat} {s : State}

section

variable {parse : Rule → Parser Slot} (hparse : Callable n m parse)

/-! ### Simple statements -/

theorem affords_emptyStatement (hs : s.Ready n m r) (hk : kindOf s.upcoming = .semicolon) :
    Affords n emptyStatement s fun _ => 0 := by
  refine tells_position.bind (.pass hs (affords_expect_of_eq hs (by decide) hk) (by simp) ?_)
  exact fun _ s _ => affords_finish _ _ (by simp)

include hparse

theorem affords_expressionStatement (hr : 4 < r) (hs : s.Ready n m r) :
    Affords n (expressionStatement parse) s fun _ => 46 := by
  refine tells_position.bind ((affords_expression hparse hr hs).bind hs fun inner s hs => ?_)
  refine .ite (fun _ => .pure (by simp)) fun _ => ?_
  exact (affords_semicolon hs).bind hs fun _ s hs => affords_node _ _ (by simp)

theorem affords_variableStatement (hs : s.Ready n m r) (hk : kindOf s.upcoming ≠ .endOfFile) :
    Affords n (variableStatement parse) s fun _ => 0 := by
  refine tells_position.bind ((affords_variableList hparse hs hk).bind hs fun list s hs => ?_)
  exact (affords_semicolon hs).bind hs fun _ s hs => affords_finish _ _ (by simp)

theorem affords_returnValue (hr : 4 < r) (hs : s.Ready n m r) :
    Affords n (returnValue parse) s fun _ => 41 :=
  tells_canEndStatement.bind (.ite (fun _ => .pure (by simp)) fun _ =>
    (affords_expression hparse hr hs).mono (by simp))

theorem affords_returnStatement (hs : s.Ready n m r) (hk : kindOf s.upcoming = .returnKeyword) :
    Affords n (returnStatement parse) s fun _ => 0 := by
  refine tells_position.bind (.pass hs (affords_expect_of_eq hs (by decide) hk) (by simp) ?_)
  intro _ s hs
  refine (affords_returnValue hparse (by decide) hs).bind hs fun value s hs => ?_
  exact (affords_semicolon hs).bind hs fun _ s hs => affords_finish _ _ (by simp)

theorem affords_throwStatement (hs : s.Ready n m r) (hk : kindOf s.upcoming = .throwKeyword) :
    Affords n (throwStatement parse) s fun _ => 0 := by
  refine tells_position.bind (.pass hs (affords_expect_of_eq hs (by decide) hk) (by simp) ?_)
  intro _ s hs
  refine (affords_expression hparse (by decide) hs).bind hs fun value s hs => ?_
  exact (affords_semicolon hs).bind hs fun _ s hs => affords_finish _ _ (by simp)

/-! ### Choice and repetition -/

theorem affords_headCondition (hs : s.Ready n m 6) :
    Affords n (headCondition parse) s fun _ => 44 := by
  refine (affords_expect _).bind hs fun _ s hs => ?_
  refine (affords_expression hparse (by decide) hs).bind hs fun condition s hs => ?_
  exact (affords_expect _).bind hs fun _ s hs => .pure (by simp)

theorem affords_alternative (hs : s.Ready n m r) :
    Affords n (alternative parse) s fun _ => 1 := by
  refine .accept hs (by decide) (fun s hs => ?_) fun _ => .pure (by simp)
  exact (hparse .statement (by simp) hs).mono (by simp)

theorem affords_ifStatement (hs : s.Ready n m r) (hk : kindOf s.upcoming = .ifKeyword) :
    Affords n (ifStatement parse) s fun _ => 0 := by
  refine tells_position.bind (.pass hs (affords_expect_of_eq hs (by decide) hk) (by simp) ?_)
  intro _ s hs
  refine (affords_headCondition hparse hs).bind hs fun condition s hs => ?_
  refine (hparse .statement (by simp) hs).bind hs fun consequent s hs => ?_
  exact (affords_alternative hparse hs).bind hs fun otherwise s hs => affords_finish _ _ (by simp)

theorem affords_whileStatement (hs : s.Ready n m r) (hk : kindOf s.upcoming = .whileKeyword) :
    Affords n (whileStatement parse) s fun _ => 0 := by
  refine tells_position.bind (.pass hs (affords_expect_of_eq hs (by decide) hk) (by simp) ?_)
  intro _ s hs
  refine (affords_headCondition hparse hs).bind hs fun condition s hs => ?_
  exact (hparse .statement (by simp) hs).bind hs fun loop s hs => affords_finish _ _ (by simp)

theorem affords_forFirst (hs : s.Ready n m 6) : Affords n (forFirst parse) s fun _ => 42 := by
  refine .withContext hs fun s _ hs => tells_kind.bind ?_
  split
  · next hk => exact .map ((affords_variableList hparse hs (by simp [hk])).mono (by simp))
  · next hk => exact .map ((affords_variableList hparse hs (by simp [hk])).mono (by simp))
  · refine .lookFor hs looks_startsLetDeclaration rfl (fun s hs hk => ?_) fun s hs _ => ?_
    · refine (affords_variableList hparse hs (by simp [hk])).bind hs fun _ s hs => ?_
      exact .pure (by simp)
    · exact (affords_expression hparse (by decide) hs).mono (by simp)

theorem affords_forInitializer (hs : s.Ready n m 6) :
    Affords n (forInitializer parse) s fun _ => 43 :=
  (tells_isAt _).bind (.ite (fun _ => .pure (by simp)) fun _ =>
    (affords_forFirst hparse hs).mono (by simp))

theorem affords_expressionBefore (hs : s.Ready n m 6) (k : TokenKind) :
    Affords n (expressionBefore parse k) s fun _ => 41 :=
  (tells_isAt _).bind (.ite (fun _ => .pure (by simp)) fun _ =>
    (affords_expression hparse (by decide) hs).mono (by simp))

theorem affords_forStatement (hs : s.Ready n m r) (hk : kindOf s.upcoming = .forKeyword) :
    Affords n (forStatement parse) s fun _ => 0 := by
  refine tells_position.bind (.pass hs (affords_expect_of_eq hs (by decide) hk) (by simp) ?_)
  intro _ s hs
  refine (affords_expect _).bind hs fun _ s hs => ?_
  refine (affords_forInitializer hparse hs).bind hs fun first s hs => ?_
  refine (affords_expect _).bind hs fun _ s hs => ?_
  refine (affords_expressionBefore hparse hs _).bind hs fun condition s hs => ?_
  refine (affords_expect _).bind hs fun _ s hs => ?_
  refine (affords_expressionBefore hparse hs _).bind hs fun increment s hs => ?_
  refine (affords_expect _).bind hs fun _ s hs => ?_
  exact (hparse .statement (by simp) hs).bind hs fun loop s hs => affords_finish _ _ (by simp)

/-! ### Exports -/

theorem affords_asyncFunction (nameRequired : Bool) (hs : s.Ready n m r)
    (hk : kindOf s.upcoming = .asyncKeyword) :
    Affords n (do return some (← functionDeclaration parse nameRequired)) s fun _ => 0 :=
  (affords_functionDeclaration hparse hs (.inr hk) _).bind hs fun _ s hs => .pure (by simp)

theorem affords_defaultExport (hs : s.Ready n m 6) :
    Affords n (defaultExport parse) s fun _ => 43 := by
  refine tells_kind.bind ?_
  split
  · next hk => exact .map ((affords_functionDeclaration hparse hs (.inl hk) _).mono (by simp))
  · next hk => exact .map ((affords_classLike hparse hs hk _ _).mono (by simp))
  · refine .lookFor hs looks_startsAsyncFunction rfl (fun s hs hk => ?_) fun s hs _ => ?_
    · exact (affords_asyncFunction hparse _ hs hk).mono (by simp)
    · refine (hparse .assignment (by simp) hs).bind hs fun value s hs => ?_
      exact (affords_semicolon hs).bind hs fun _ s hs => .pure (by simp)

theorem affords_exportedDeclaration (hs : s.Ready n m 6) :
    Affords n (exportedDeclaration parse) s fun _ => 3 := by
  refine tells_kind.bind ?_
  have hvariables : kindOf s.upcoming ≠ .endOfFile →
      Affords n (some <$> variableStatement parse) s fun _ => 0 := fun hk =>
    .map (affords_variableStatement hparse hs hk)
  split
  · next hk => exact (hvariables (by simp [hk])).mono (by simp)
  · next hk => exact (hvariables (by simp [hk])).mono (by simp)
  · next hk => exact (hvariables (by simp [hk])).mono (by simp)
  · next hk => exact .map ((affords_functionDeclaration hparse hs (.inl hk) _).mono (by simp))
  · next hk => exact .map ((affords_classLike hparse hs hk _ _).mono (by simp))
  · refine .lookFor hs looks_startsAsyncFunction rfl (fun s hs hk => ?_) fun s hs _ => ?_
    · exact (affords_asyncFunction hparse _ hs hk).mono (by simp)
    · exact (looks_complain _).bind fun _ s _ => .pure (by simp)

theorem affords_exportStatement (hs : s.Ready n m r) (hk : kindOf s.upcoming = .exportKeyword) :
    Affords n (exportStatement parse) s fun _ => 0 := by
  refine tells_position.bind (.pass hs (affords_expect_of_eq hs (by decide) hk) (by simp) ?_)
  intro _ s hs
  refine .accept hs (by decide) (fun s hs => ?_) fun _ => .ite nofun fun _ => ?_
  · exact (affords_defaultExport hparse hs).bind hs fun exported s hs => affords_finish _ _ (by simp)
  · refine (affords_exportedDeclaration hparse hs).bind hs fun declaration s hs => ?_
    exact affords_finish _ _ (by simp)

/-! ### All statements -/

/-- Whatever begins with a word or mark of its own is paid for by that, so the price is that of a
statement that is an expression. -/
theorem affords_bareStatement (hs : s.Ready n m 5) :
    Affords n (bareStatement parse) s fun _ => 49 := by
  refine tells_kind.bind ?_
  split
  · next hk => exact (affords_block_of_eq hparse hs hk).mono (by simp)
  · next hk => exact .map ((affords_emptyStatement hs hk).mono (by simp))
  · next hk => exact .map ((affords_variableStatement hparse hs (by simp [hk])).mono (by simp))
  · next hk => exact .map ((affords_variableStatement hparse hs (by simp [hk])).mono (by simp))
  · next hk => exact .map ((affords_functionDeclaration hparse hs (.inl hk) _).mono (by simp))
  · next hk => exact .map ((affords_classLike hparse hs hk _ _).mono (by simp))
  · next hk => exact .map ((affords_ifStatement hparse hs hk).mono (by simp))
  · next hk => exact .map ((affords_whileStatement hparse hs hk).mono (by simp))
  · next hk => exact .map ((affords_forStatement hparse hs hk).mono (by simp))
  · next hk => exact .map ((affords_returnStatement hparse hs hk).mono (by simp))
  · next hk => exact .map ((affords_throwStatement hparse hs hk).mono (by simp))
  · next hk => exact .map ((affords_exportStatement hparse hs hk).mono (by simp))
  · refine .lookFor hs looks_startsLetDeclaration rfl (fun s hs hk => ?_) fun s hs hk => ?_
    · refine (affords_variableStatement hparse hs (by simp [hk])).bind hs fun _ s hs => ?_
      exact .pure (by simp)
    · refine .lookFor hs looks_startsAsyncFunction hk (fun s hs hk => ?_) fun s hs _ => ?_
      · exact (affords_asyncFunction hparse _ hs hk).mono (by simp)
      · exact (affords_expressionStatement hparse (by decide) hs).mono (by simp)

theorem affords_statement (hs : s.Ready n m 5) :
    Affords n (statement parse) s fun _ => Rule.statement.price :=
  .nested hs (by decide) fun _ _ hs => (affords_bareStatement hparse hs).mono (by simp)

/-! ### The grammar as a whole -/

/-- What each rule stands for has the price of the rule, if the rules that it refers to have theirs. -/
theorem affords_body (rule : Rule) (hs : s.Ready n m rule.rank) :
    Affords n (body parse rule) s fun _ => rule.price := by
  cases rule with
  | statement => exact affords_statement hparse hs
  | assignment => exact affords_assignmentExpression hparse hs
  | binary above => exact affords_binaryExpression hparse above hs
  | unary => exact affords_unaryExpression hparse hs
  | leftHandSide => exact affords_chain hparse (by decide) hs true
  | construction => exact affords_construction hparse hs
  | bindingName => exact .map (affords_bindingName hparse hs)

theorem affords_scriptStatements (hr : 5 < r) (hs : s.Ready n m r) :
    Affords n (scriptStatements parse) s fun _ => 58 := by
  refine (Affords.collect (x := 56) (y := 1) hs (by decide) (by decide) (fun s hs => ?_)
    fun s hs hmore => ?_).mono (by simp)
  · refine tells_kind.bind ?_
    split
    · exact .pure (by simp)
    · next hk =>
      refine (looks_complain _).bind fun _ s' hupcoming => ?_
      have hs' := hs.of_upcoming hupcoming
      have hk' : kindOf s'.upcoming ≠ .endOfFile := by
        rw [hupcoming, hk]
        decide
      exact (affords_advance hs' hk').bind hs' fun _ s hs => .pure (by simp)
    · exact (affords_listedStatement hparse hr hs).bind hs fun statement s hs => .pure (by simp)
  · rw [Parser.run_bind, run_kind] at hmore ⊢
    split at hmore
    · cases hmore
    · next hk =>
      replace hk : kindOf s.upcoming = .closeBrace := hk
      refine remaining_lt_of_skips hs (by simp [hk]) (.refl s)
        ((s.keeps_complain .statementExpected).trans (State.keeps_advance _)) fun _ _ => ?_
      exact ⟨s.complain .statementExpected, (looks_complain (n := n) _).1, rfl⟩
    · next hk _ => exact remaining_listedStatement_lt hs hk

end

/-- However many references to rules are allowed, none of those for which enough are left is cut
off. -/
theorem callable_parseWithin (n limit : Nat) : Callable n limit (parseWithin limit) := by
  induction limit with
  | zero =>
    rintro rule r s hr ⟨-, -, hlimit⟩
    omega
  | succ limit ih =>
    rintro rule r s hr ⟨hended, hn, hlimit⟩
    exact affords_body ih rule ⟨hended, hn, by omega⟩

end FunctionNaming.Grammar
