import FunctionNaming.Script
import FunctionNaming.Proofs.Grammar.Sound.Expression

/-!
Soundness of the grammar for statements, and so for scripts: a script that is read without
complaints is derived, and its trees are those of the derivation.
-/

namespace FunctionNaming.Grammar

open SyntaxTree (node)

section Rules

variable {parse : Rule → Parser Slot} (hparse : FindsRules parse) {Γ : Context} {d : Nat}
  {T : List Token} {known : Known} {s : State}

include hparse

/-! ### Simple statements -/

theorem safe_variableStatement (hs : At Γ d T known s)
    (hk : kindOf T = .varKeyword ∨ kindOf T = .letKeyword ∨ kindOf T = .constKeyword) :
    Safe (variableStatement parse) s
      (Found ([·]) Γ d known (Derives .variableStatement Γ d T)) := by
  refine .position fun start => (safe_variableList hparse hs hk).bind
    fun list s₁ ⟨ls, T₁, hs₁, hl⟩ => ?_
  obtain ⟨l, rfl⟩ := hl.single rfl
  refine (Safe.semicolon hs₁).bind fun _ s₂ ⟨T₂, hend, hs₂⟩ => ?_
  exact .finish hs₂ (.variableStatement hl hend) (fun _ hp => by simp [hp]) (by simp +contextual)

theorem finds_expressionStatement (hs : At Γ d T known s)
    (hstarts : startsExpressionStatement Γ T) :
    Safe (expressionStatement parse) s
      (Found Option.toList Γ d known (Derives .bareStatement Γ d T)) := by
  refine .position fun start => (finds_expression hparse hs).bind fun inner s₁ ⟨es, T₁, hs₁, he⟩ => ?_
  obtain ⟨e, rfl⟩ := he.single rfl
  obtain ⟨id, rfl⟩ := hs₁.exists_eq_some
  refine .ite nofun fun _ => (Safe.semicolon hs₁).bind fun _ s₂ ⟨T₂, hend, hs₂⟩ => ?_
  exact Safe.some (.finish hs₂ (.expressionStatement hstarts he hend)
    (fun _ hp => by simp [hp]) (by simp +contextual))

theorem finds_returnValue : Finds Option.toList .returnValue (returnValue parse) := by
  intro Γ d T known s hs
  refine .tells hs.run_canEndStatement (.ite (fun hend => ?_) fun hend => ?_)
  · exact .pure ⟨[], T, hs.learn (Forest.reads_nil _), .noReturnValue hend⟩
  · exact (finds_expression hparse hs).mono fun a s' h => h.single rfl fun e rest he =>
      .returnValue hend he

theorem finds_alternative : Finds Option.toList .alternative (alternative parse) := by
  intro Γ d T known s hs
  refine (Safe.accept hs (by decide)).bind fun b s₁ ⟨T₁, haccepts, hs₁⟩ => ?_
  cases b with
  | true =>
    obtain ⟨t, ht, rfl⟩ := haccepts
    exact (hparse .statement hs₁).mono fun a s' h => h.single rfl fun x rest hx =>
      .alternative ht hx
  | false =>
    obtain ⟨hk, rfl⟩ := haccepts
    exact .pure ⟨[], _, hs₁.learn (Forest.reads_nil _), .noAlternative hk⟩

/-! ### Loops -/

/-- A condition in parentheses. -/
theorem safe_headCondition (hs : At Γ d T known s) :
    Safe (headCondition parse) s (Found Option.toList Γ d known fun ts rest =>
      ∃ o e c T', T = o :: T' ∧ o.kind = .openParen ∧ ts = [e] ∧
        Derives .expression Γ d T' [e] (c :: rest) ∧ c.kind = .closeParen) := by
  refine (Safe.expect hs (by decide)).bind ?_
  rintro _ s₁ ⟨o, T₁, rfl, ho, hs₁⟩
  refine (finds_expression hparse hs₁).bind fun condition s₂ ⟨es, T₂, hs₂, he⟩ => ?_
  obtain ⟨e, rfl⟩ := he.single rfl
  refine (Safe.expect hs₂ (by decide)).bind ?_
  rintro _ s₃ ⟨c, T₃, rfl, hc, hs₃⟩
  exact .pure ⟨_, T₃, hs₃, o, e, c, T₁, rfl, ho, rfl, he, hc⟩

theorem finds_forInitializer : Finds Option.toList .forInitializer (forInitializer parse) := by
  intro Γ d T known s hs
  refine .tells (hs.run_isAt _) (.ite (fun hk => ?_) fun hk => ?_)
  · exact .pure ⟨[], T, hs.learn (Forest.reads_nil _), .noForInitializer (by simpa using hk)⟩
  have hsemicolon : kindOf T ≠ .semicolon := by simpa using hk
  refine Safe.withContext hs fun s hs => .tells hs.run_kind ?_
  have hlist : kindOf T = .varKeyword ∨ kindOf T = .letKeyword ∨ kindOf T = .constKeyword →
      Safe (variableList parse) s
        (Found ([·]) Γ.insideForHead d known (Derives .forInitializer Γ d T)) := fun hk =>
    (safe_variableList hparse hs hk).mono fun a s' h => h.single rfl fun l rest hl =>
      .forVariables hl
  split
  · next hk => exact .map (hlist (.inl hk))
  · next hk => exact .map (hlist (.inr (.inr hk)))
  · next hvar hconst =>
    obtain ⟨b, hrun, hb⟩ := hs.exists_run_startsLetDeclaration
    refine .tells hrun (.ite (fun hlet => ?_) fun hlet => ?_)
    · have hk : kindOf T = .letKeyword := by
        simp only [Bool.and_eq_true, beq_iff_eq] at hlet
        exact hlet.1
      exact (hlist (.inr (.inl hk))).some
    · refine (finds_expression hparse hs).mono fun a s' h => h.single rfl fun e rest he =>
        .forExpression ?_ hsemicolon he
      rw [hb] at hlet
      rw [startsForExpression]
      split
      · next hk => exact absurd hk hvar
      · next hk => exact absurd hk hconst
      · next hk =>
        have hinside : Γ.insideForHead.startsBinding (kindOf T.tail) =
            Γ.startsBinding (kindOf T.tail) := by
          cases kindOf T.tail <;> rfl
        have hno : Γ.insideForHead.startsBinding (kindOf T.tail) ≠ true := fun hyes =>
          hlet (Bool.and_eq_true_iff.2 ⟨by rw [hk]; rfl, hyes⟩)
        rw [← hinside]
        simpa using hno
      · rfl

theorem finds_expressionBefore (k : TokenKind) :
    Finds Option.toList (.expressionBefore k) (expressionBefore parse k) := by
  intro Γ d T known s hs
  refine .tells (hs.run_isAt _) (.ite (fun hk => ?_) fun hk => ?_)
  · exact .pure ⟨[], T, hs.learn (Forest.reads_nil _), .noExpression (by simpa using hk)⟩
  · exact (finds_expression hparse hs).mono fun a s' h => h.single rfl fun e rest he =>
      .expressionBefore (by simpa using hk) he

theorem safe_forStatement (hs : At Γ d T known s) :
    Safe (forStatement parse) s (Found ([·]) Γ d known (Derives .bareStatement Γ d T)) := by
  refine .position fun start => (Safe.expect hs (by decide)).bind ?_
  rintro _ s₁ ⟨t, T₁, rfl, ht, hs₁⟩
  refine (Safe.expect hs₁ (by decide)).bind ?_
  rintro _ s₂ ⟨o, T₂, rfl, ho, hs₂⟩
  refine (finds_forInitializer hparse hs₂).bind fun first s₃ ⟨i, T₃, hs₃, hi⟩ => ?_
  refine (Safe.expect hs₃ (by decide)).bind ?_
  rintro _ s₄ ⟨c₁, T₄, rfl, hc₁, hs₄⟩
  refine (finds_expressionBefore hparse _ hs₄).bind fun condition s₅ ⟨e, T₅, hs₅, he⟩ => ?_
  refine (Safe.expect hs₅ (by decide)).bind ?_
  rintro _ s₆ ⟨c₂, T₆, rfl, hc₂, hs₆⟩
  refine (finds_expressionBefore hparse _ hs₆).bind fun increment s₇ ⟨u, T₇, hs₇, hu⟩ => ?_
  refine (Safe.expect hs₇ (by decide)).bind ?_
  rintro _ s₈ ⟨c, T₈, rfl, hc, hs₈⟩
  refine (hparse .statement hs₈).bind fun body s₉ ⟨xs, T₉, hs₉, hx⟩ => ?_
  obtain ⟨x, rfl⟩ := hx.single rfl
  exact .finish hs₉ (.forStatement ht ho hi hc₁ he hc₂ hu hc hx)
    (fun _ hp => by simp [hp]) (by simp +contextual)

/-! ### Exports -/

theorem finds_defaultExport : Finds Option.toList .defaultExport (defaultExport parse) := by
  intro Γ d T known s hs
  have hfunction : startsFunction T → Safe (some <$> functionDeclaration parse false) s
      (Found Option.toList Γ d known (Derives .defaultExport Γ d T)) := fun hstarts =>
    .map ((finds_functionDeclaration hparse false hs).mono fun a s' h => h.single rfl
      fun x rest hx => .defaultFunction hstarts hx)
  refine .tells hs.run_kind ?_
  split
  · next hk => exact hfunction (by simp [startsFunction, hk])
  · exact .map ((finds_classLike hparse .declaration false hs).mono fun a s' h => h.single rfl
      fun x rest hx => .defaultClass hx)
  · next hfun hclass =>
    obtain ⟨b, hrun, hb⟩ := hs.exists_run_startsAsyncFunction
    refine .tells hrun (.ite (fun hasync => ?_) fun hasync => ?_)
    · rw [hb] at hasync
      exact hfunction (by simp [startsFunction, hasync])
    · rw [hb] at hasync
      refine (hparse .assignment hs).bind ?_
      rintro value s₁ ⟨es, T₁, hs₁, he⟩
      obtain ⟨e, rfl⟩ := he.single rfl
      refine (Safe.semicolon hs₁).bind ?_
      rintro _ s₂ ⟨T₂, hend, hs₂⟩
      exact .pure ⟨_, T₂, hs₂, .defaultExpression (by simp_all [startsFunction]) hclass he hend⟩

theorem finds_exportedDeclaration :
    Finds Option.toList .exportedDeclaration (exportedDeclaration parse) := by
  intro Γ d T known s hs
  have hvariables : kindOf T = .varKeyword ∨ kindOf T = .letKeyword ∨ kindOf T = .constKeyword →
      Safe (some <$> variableStatement parse) s
        (Found Option.toList Γ d known (Derives .exportedDeclaration Γ d T)) := fun hk =>
    .map ((safe_variableStatement hparse hs hk).mono fun a s' h => h.single rfl
      fun x rest hx => .exportVariables hx)
  have hfunction : startsFunction T → Safe (some <$> functionDeclaration parse true) s
      (Found Option.toList Γ d known (Derives .exportedDeclaration Γ d T)) := fun hstarts =>
    .map ((finds_functionDeclaration hparse true hs).mono fun a s' h => h.single rfl
      fun x rest hx => .exportFunction hstarts hx)
  refine .tells hs.run_kind ?_
  split
  · next hk => exact hvariables (.inl hk)
  · next hk => exact hvariables (.inr (.inr hk))
  · next hk => exact hvariables (.inr (.inl hk))
  · next hk => exact hfunction (by simp [startsFunction, hk])
  · exact .map ((finds_classLike hparse .declaration true hs).mono fun a s' h => h.single rfl
      fun x rest hx => .exportClass hx)
  · obtain ⟨b, hrun, hb⟩ := hs.exists_run_startsAsyncFunction
    refine .tells hrun (.ite (fun hasync => ?_) fun _ => ?_)
    · rw [hb] at hasync
      exact hfunction (by simp [startsFunction, hasync])
    · exact Safe.complain.bind fun _ _ h => h.elim

theorem safe_exportStatement (hs : At Γ d T known s) :
    Safe (exportStatement parse) s (Found ([·]) Γ d known (Derives .bareStatement Γ d T)) := by
  refine .position fun start => (Safe.expect hs (by decide)).bind ?_
  rintro _ s₁ ⟨t, T₁, rfl, ht, hs₁⟩
  refine (Safe.accept hs₁ (by decide)).bind fun b s₂ ⟨T₂, haccepts, hs₂⟩ => ?_
  cases b with
  | true =>
    obtain ⟨k, hk, rfl⟩ := haccepts
    refine (finds_defaultExport hparse hs₂).bind fun exported s₃ ⟨xs, T₃, hs₃, hx⟩ => ?_
    obtain ⟨x, rfl⟩ := hx.single rfl
    exact Safe.finish hs₃ (.exportDefault ht hk hx) (fun _ hp => by simp [hp]) (by simp +contextual)
  | false =>
    obtain ⟨-, rfl⟩ := haccepts
    refine (finds_exportedDeclaration hparse hs₂).bind fun declaration s₃ ⟨xs, T₃, hs₃, hx⟩ => ?_
    obtain ⟨x, rfl⟩ := hx.single rfl
    exact Safe.finish hs₃ (.exportDeclaration ht hx)
      (fun _ hp => by simp [hp]) (by simp +contextual)

/-! ### All statements -/

omit hparse in
/-- A statement that begins with none of the words for statements is an expression. -/
theorem startsExpressionStatement_of_ne (hfunction : startsFunction T = false)
    (hlet : (kindOf T == .letKeyword && Γ.startsBinding (kindOf T.tail)) = false)
    (hk : kindOf T ∉ [.openBrace, .semicolon, .varKeyword, .constKeyword, .functionKeyword,
      .classKeyword, .ifKeyword, .whileKeyword, .forKeyword, .returnKeyword, .throwKeyword,
      .exportKeyword]) :
    startsExpressionStatement Γ T := by
  rw [startsExpressionStatement]
  rw [startsFunction] at hfunction
  generalize kindOf T = k at hfunction hlet hk ⊢
  cases k <;> simp_all

theorem safe_ifStatement (hs : At Γ d T known s) :
    Safe (ifStatement parse) s (Found ([·]) Γ d known (Derives .bareStatement Γ d T)) := by
  refine .position fun start => (Safe.expect hs (by decide)).bind ?_
  rintro _ s₁ ⟨t, T₁, rfl, ht, hs₁⟩
  refine (safe_headCondition hparse hs₁).bind ?_
  rintro condition s₂ ⟨_, T₂, hs₂, o, e, c, T₃, rfl, ho, rfl, he, hc⟩
  refine (hparse .statement hs₂).bind fun consequent s₃ ⟨xs, T₄, hs₃, hx⟩ => ?_
  obtain ⟨x, rfl⟩ := hx.single rfl
  refine (finds_alternative hparse hs₃).bind fun otherwise s₄ ⟨y, T₅, hs₄, hy⟩ => ?_
  exact .finish hs₄ (.ifStatement ht ho he hc hx hy)
    (fun _ hp => by simp [hp]) (by simp +contextual)

theorem safe_whileStatement (hs : At Γ d T known s) :
    Safe (whileStatement parse) s (Found ([·]) Γ d known (Derives .bareStatement Γ d T)) := by
  refine .position fun start => (Safe.expect hs (by decide)).bind ?_
  rintro _ s₁ ⟨t, T₁, rfl, ht, hs₁⟩
  refine (safe_headCondition hparse hs₁).bind ?_
  rintro condition s₂ ⟨_, T₂, hs₂, o, e, c, T₃, rfl, ho, rfl, he, hc⟩
  refine (hparse .statement hs₂).bind fun body s₃ ⟨xs, T₄, hs₃, hx⟩ => ?_
  obtain ⟨x, rfl⟩ := hx.single rfl
  exact .finish hs₃ (.whileStatement ht ho he hc hx)
    (fun _ hp => by simp [hp]) (by simp +contextual)

theorem safe_returnStatement (hs : At Γ d T known s) :
    Safe (returnStatement parse) s (Found ([·]) Γ d known (Derives .bareStatement Γ d T)) := by
  refine .position fun start => (Safe.expect hs (by decide)).bind ?_
  rintro _ s₁ ⟨t, T₁, rfl, ht, hs₁⟩
  refine (finds_returnValue hparse hs₁).bind fun value s₂ ⟨v, T₂, hs₂, hv⟩ => ?_
  refine (Safe.semicolon hs₂).bind fun _ s₃ ⟨T₃, hend, hs₃⟩ => ?_
  exact .finish hs₃ (.returnStatement ht hv hend) (fun _ hp => by simp [hp]) (by simp +contextual)

theorem safe_throwStatement (hs : At Γ d T known s) :
    Safe (throwStatement parse) s (Found ([·]) Γ d known (Derives .bareStatement Γ d T)) := by
  refine .position fun start => (Safe.expect hs (by decide)).bind ?_
  rintro _ s₁ ⟨t, T₁, rfl, ht, hs₁⟩
  refine (finds_expression hparse hs₁).bind fun value s₂ ⟨es, T₂, hs₂, he⟩ => ?_
  obtain ⟨e, rfl⟩ := he.single rfl
  refine (Safe.semicolon hs₂).bind fun _ s₃ ⟨T₃, hend, hs₃⟩ => ?_
  exact .finish hs₃ (.throwStatement ht he hend) (fun _ hp => by simp [hp]) (by simp +contextual)

theorem finds_bareStatement : Finds Option.toList .bareStatement (bareStatement parse) := by
  intro Γ d T known s hs
  have hvariables : kindOf T = .varKeyword ∨ kindOf T = .letKeyword ∨ kindOf T = .constKeyword →
      Safe (some <$> variableStatement parse) s
        (Found Option.toList Γ d known (Derives .bareStatement Γ d T)) := fun hk =>
    .map ((safe_variableStatement hparse hs hk).mono fun a s' h => h.single rfl
      fun x rest hx => .variables hx)
  have hfunction : startsFunction T → Safe (some <$> functionDeclaration parse true) s
      (Found Option.toList Γ d known (Derives .bareStatement Γ d T)) := fun hstarts =>
    .map ((finds_functionDeclaration hparse true hs).mono fun a s' h => h.single rfl
      fun x rest hx => .functionStatement hstarts hx)
  refine .tells hs.run_kind ?_
  split
  · exact (finds_block hparse hs).mono fun a s' h => h.single rfl fun x rest hx =>
      .blockStatement hx
  · refine .map (.position fun start => (Safe.expect hs (by decide)).bind ?_)
    rintro _ s₁ ⟨t, T₁, rfl, ht, hs₁⟩
    exact .finish hs₁ (.emptyStatement ht) (fun _ hp => by simp [hp]) (by simp +contextual)
  · next hk => exact hvariables (.inl hk)
  · next hk => exact hvariables (.inr (.inr hk))
  · next hk => exact hfunction (by simp [startsFunction, hk])
  · exact .map ((finds_classLike hparse .declaration true hs).mono fun a s' h => h.single rfl
      fun x rest hx => .classStatement hx)
  · exact .map (safe_ifStatement hparse hs)
  · exact .map (safe_whileStatement hparse hs)
  · exact .map (safe_forStatement hparse hs)
  · exact .map (safe_returnStatement hparse hs)
  · exact .map (safe_throwStatement hparse hs)
  · exact .map (safe_exportStatement hparse hs)
  · obtain ⟨b, hrun, hb⟩ := hs.exists_run_startsLetDeclaration
    refine .tells hrun (.ite (fun hlet => ?_) fun hlet => ?_)
    · have hk : kindOf T = .letKeyword := by
        simp only [Bool.and_eq_true, beq_iff_eq] at hlet
        exact hlet.1
      exact hvariables (.inr (.inl hk))
    obtain ⟨b', hrun', hb'⟩ := hs.exists_run_startsAsyncFunction
    refine .tells hrun' (.ite (fun hasync => ?_) fun hasync => ?_)
    · rw [hb'] at hasync
      exact hfunction (by simp [startsFunction, hasync])
    · rw [hb] at hlet
      rw [hb'] at hasync
      refine finds_expressionStatement hparse hs (startsExpressionStatement_of_ne ?_ ?_ ?_)
      · simp_all [startsFunction]
      · simpa using hlet
      · simp_all

theorem finds_statement : Finds Option.toList .statement (statement parse) := by
  intro Γ d T known s hs
  exact .nested hs fun hd s hs => (finds_bareStatement hparse hs).mono fun a s' h =>
    h.single rfl fun x rest hx => .statement hd hx

end Rules

/-! ### Scripts -/

theorem findsRules_body {parse : Rule → Parser Slot} (hparse : FindsRules parse) :
    FindsRules (body parse)
  | .statement => finds_statement hparse
  | .assignment => finds_assignmentExpression hparse
  | .binary above => finds_binaryExpression hparse above
  | .unary => finds_unaryExpression hparse
  | .leftHandSide => finds_leftHandSideExpression hparse
  | .construction => finds_construction hparse
  | .bindingName => (finds_bindingName hparse).some

/-- Whatever the limit, the rules of the grammar find phrases. -/
theorem findsRules_parseWithin (limit : Nat) : FindsRules (parseWithin limit) := by
  induction limit with
  | zero => exact fun rule Γ d T known s hs => Safe.complain.bind fun _ _ h => h.elim
  | succ limit ih => exact findsRules_body ih

/-- The statements of a script that is read without complaints are derived, up to its end. -/
theorem safe_scriptStatements {parse : Rule → Parser Slot} (hparse : FindsRules parse) {Γ : Context}
    {d : Nat} {T : List Token} {known : Known} {s : State} (hs : At Γ d T known s) :
    Safe (scriptStatements parse) s (Found id Γ d known fun ts rest =>
      Derives .statements Γ d T ts rest ∧ kindOf rest = .endOfFile) := by
  refine .collect (F := fun T ts rest =>
    Derives .statements Γ d T ts rest ∧ kindOf rest = .endOfFile) hs fun T known s hs => ?_
  refine .tells hs.run_kind ?_
  split
  · next hk =>
    refine .pure ⟨[], T, hs.learn (Forest.reads_nil _), ⟨fun _ => ⟨.statementsEnd (.inr hk), hk⟩, ?_⟩⟩
    exact nofun
  · exact Safe.complain.bind fun _ _ h => h.elim
  · refine (finds_listedStatement hparse hs).bind fun a s₁ ⟨ts, T₁, hs₁, h⟩ => ?_
    obtain ⟨x, rfl⟩ := h.single rfl
    exact .pure ⟨_, T₁, hs₁, ⟨nofun, fun _ => ⟨h.length_lt rfl, fun ts' rest ⟨hrest, hend⟩ =>
      ⟨.statementsMore h hrest, hend⟩⟩⟩⟩

end FunctionNaming.Grammar

namespace FunctionNaming.Script

open Grammar

/-- A script that is read without complaints is derived, and its forest holds the trees of the
derivation. -/
theorem derives_of_readStatements {tokens : List Token} (htokens : Ended tokens)
    (hclean : (readStatements tokens).2.Clean) :
    ∃ ts last, (readStatements tokens).2.forest.Reads (readStatements tokens).1 ts ∧
      Derives .statements .outermost 0 tokens ts [last] ∧ last.kind = .endOfFile := by
  have hstart : At .outermost 0 tokens [] (.start tokens) := ⟨rfl, rfl, rfl, htokens, nofun⟩
  obtain ⟨ts, rest, hs, hderives, hend⟩ :=
    safe_scriptStatements (findsRules_parseWithin (6 * tokens.length + 6)) hstart hclean
  obtain ⟨last, rfl, hlast⟩ := hs.ended.eq_singleton hend
  exact ⟨ts, last, hs.reads _ List.mem_cons_self, hderives, hlast⟩

end FunctionNaming.Script
