import FunctionNaming.Script
import FunctionNaming.Proofs.Grammar.Reads.Expression

/-!
Completeness of the grammar for statements and scripts: where the statements of a script are derived
from its tokens, they are read without complaints.
-/

namespace FunctionNaming.Grammar

open SyntaxTree (node)

variable {Γ : Context} {d : Nat} {T T' rest : List Token} {e x : SyntaxTree} {ts : List SyntaxTree}
  {known : Known} {s : State}

/-! ### First tokens that tell statements apart -/

/-- A declaration with `let` has a name or a pattern behind the word. -/
theorem Derives.startsBinding_of_variableList (h : Derives .variableList Γ d T ts rest) :
    Γ.startsBinding (kindOf T.tail) = true := by
  cases h with
  | variableList ht hx => exact hx.first rfl

theorem Derives.startsBinding_of_variableStatement (h : Derives .variableStatement Γ d T ts rest) :
    Γ.startsBinding (kindOf T.tail) = true := by
  cases h with
  | variableStatement hl hend => exact hl.startsBinding_of_variableList

theorem Derives.kindOf_of_variableStatement (h : Derives .variableStatement Γ d T ts rest) :
    kindOf T = .varKeyword ∨ kindOf T = .letKeyword ∨ kindOf T = .constKeyword := by
  simpa [Category.first, or_assoc] using h.first rfl

theorem Derives.kindOf_ne_defaultKeyword (h : Derives .exportedDeclaration Γ d T ts rest) :
    kindOf T ≠ .defaultKeyword := by
  intro hk
  cases h with
  | exportVariables hx => rcases hx.kindOf_of_variableStatement with h | h | h <;> simp [h] at hk
  | exportFunction hstarts => simp [startsFunction, hk] at hstarts
  | exportClass hx =>
    have hfirst := eq_of_beq (hx.first rfl)
    simp [hk] at hfirst

/-- A statement that is an expression does not begin with a function. -/
theorem not_startsFunction (h : startsExpressionStatement Γ T = true) :
    ¬startsFunction T = true := by
  intro hfunction
  rcases Bool.or_eq_true_iff.1 hfunction with hk | hasync
  · simp [startsExpressionStatement, eq_of_beq hk] at h
  · obtain ⟨hk, hasync⟩ := Bool.and_eq_true_iff.1 hasync
    simp [startsExpressionStatement, eq_of_beq hk, hasync] at h

section Rules

variable {parse : Rule → Parser Slot} {n : Nat} (hparse : ReadsRules n parse)

include hparse

/-! ### Simple statements -/

theorem readsAll_variableStatement :
    ReadsAll ([·]) (n + 1) .variableStatement (variableStatement parse) := by
  intro Γ d T ts rest known s h hn hs
  cases h with
  | variableStatement hl hend =>
    refine .position fun start =>
      (readsAll_variableList hparse hl (Category.reach_lt_of_rank hn le_rfl le_rfl) hs).bind
        fun list s₁ hs₁ => (Leads.semicolon hs₁ hend).bind fun _ s₂ hs₂ => ?_
    exact .finish hs₂ (fun _ hp => by simp [hp]) (by simp +contextual)

theorem leads_expressionStatement (he : Derives .expression Γ d T [e] T')
    (hend : Terminates T' rest) (hn : Category.bareStatement.reach T < n + 1) (hs : Ready Γ d T known s) :
    Leads (expressionStatement parse) s
      (Has Option.toList Γ d known [node (.expressionStatement (some e))] rest) := by
  refine .position fun start =>
    (readsAll_expression hparse he (Category.reach_lt_of_rank hn le_rfl le_rfl) hs).bind
      fun inner s₁ hs₁ => ?_
  obtain ⟨id, rfl⟩ := hs₁.exists_eq_some
  refine .else_ Bool.false_ne_true ((Leads.semicolon hs₁ hend).bind fun _ s₂ hs₂ => ?_)
  exact Leads.some (.finish hs₂ (fun _ hp => by simp [hp]) (by simp +contextual))

theorem readsAll_returnValue : ReadsAll Option.toList (n + 1) .returnValue (returnValue parse) := by
  intro Γ d T ts rest known s h hn hs
  refine .runs hs.run_canEndStatement ?_
  cases h with
  | noReturnValue hend => exact .then_ hend (.pure (hs.learn (Forest.reads_nil _)))
  | returnValue hend he =>
    exact .else_ hend
      (readsAll_expression hparse he (Category.reach_lt_of_rank hn le_rfl le_rfl) hs)

theorem readsAll_alternative : ReadsAll Option.toList (n + 1) .alternative (alternative parse) := by
  intro Γ d T ts rest known s h hn hs
  cases h with
  | noAlternative hk =>
    refine (Leads.accept hs (.absent hk) (by decide)).bind ?_
    rintro _ s₁ ⟨rfl, hs₁⟩
    exact .pure (hs₁.learn (Forest.reads_nil _))
  | alternative ht hx =>
    refine (Leads.accept hs (.passed ht) (by decide)).bind ?_
    rintro _ s₁ ⟨rfl, hs₁⟩
    exact hparse.past .statement hx hn (Nat.lt_succ_self _) hs₁

/-- A condition in parentheses. -/
theorem leads_headCondition {t o c : Token} (ho : o.kind = .openParen)
    (he : Derives .expression Γ d T [e] (c :: rest)) (hc : c.kind = .closeParen)
    (hn : Category.bareStatement.reach (t :: o :: T) < n + 1) (hs : Ready Γ d (o :: T) known s) :
    Leads (headCondition parse) s (Has Option.toList Γ d known [e] rest) := by
  have hlength : T.length < (t :: o :: T).length := Nat.lt_add_of_pos_right Nat.two_pos
  refine (Leads.expect hs ho (by decide)).bind fun _ s₁ hs₁ => ?_
  refine (readsAll_expression hparse he (Category.reach_lt hn hlength) hs₁).bind
    fun condition s₂ hs₂ => (Leads.expect hs₂ hc (by decide)).bind fun _ s₃ hs₃ => ?_
  exact .pure hs₃

/-! ### The head of a loop -/

theorem readsAll_expressionBefore (k : TokenKind) :
    ReadsAll Option.toList (n + 1) (.expressionBefore k) (expressionBefore parse k) := by
  intro Γ d T ts rest known s h hn hs
  refine .runs (hs.run_isAt _) ?_
  cases h with
  | noExpression hk => exact .then_ (by simpa using hk) (.pure (hs.learn (Forest.reads_nil _)))
  | expressionBefore hk he =>
    refine .else_ (by simpa using hk) ?_
    exact readsAll_expression hparse he (Category.reach_lt_of_rank hn le_rfl le_rfl) hs

theorem readsAll_forInitializer :
    ReadsAll Option.toList (n + 1) .forInitializer (forInitializer parse) := by
  intro Γ d T ts rest known s h hn hs
  refine .runs (hs.run_isAt _) ?_
  cases h with
  | noForInitializer hk => exact .then_ (by simpa using hk) (.pure (hs.learn (Forest.reads_nil _)))
  | forVariables hl =>
    have hk : (kindOf T = .varKeyword ∨ kindOf T = .letKeyword) ∨ kindOf T = .constKeyword := by
      simpa [Category.first] using hl.first rfl
    refine .else_ ?_ (.withContext hs fun s (hs : Ready Γ.insideForHead d T known s) =>
      .runs hs.run_kind ?_)
    · rcases hk with (hk | hk) | hk <;> simp [hk]
    have hread := (readsAll_variableList hparse).some hl
      (Category.reach_lt_of_rank hn le_rfl (Nat.zero_le _)) hs
    rcases hk with (hk | hk) | hk
    · simp only [hk]
      exact hread
    · obtain ⟨b, hrun, hb⟩ := hs.exists_run_startsLetDeclaration
      rw [hl.startsBinding_of_variableList, hk] at hb
      simp only [hk]
      exact .runs hrun (.then_ hb hread)
    · simp only [hk]
      exact hread
  | forExpression hstarts hsemicolon he =>
    refine .else_ (by simpa using hsemicolon) (.withContext hs fun s
      (hs : Ready Γ.insideForHead d T known s) => .runs hs.run_kind ?_)
    have hread := readsAll_expression hparse he (Category.reach_lt_of_rank hn le_rfl le_rfl) hs
    rw [startsForExpression] at hstarts
    split
    · next hk => simp [hk] at hstarts
    · next hk => simp [hk] at hstarts
    · obtain ⟨b, hrun, hb⟩ := hs.exists_run_startsLetDeclaration
      refine .runs hrun (.else_ ?_ hread)
      rw [hb, Context.startsBinding_insideForHead]
      intro hlet
      obtain ⟨hk, hbinding⟩ := Bool.and_eq_true_iff.1 hlet
      simp [eq_of_beq hk, hbinding] at hstarts

theorem leads_forStatement {t o s₁ s₂ c : Token} {T₁ T₂ T₃ : List Token} {i e u : List SyntaxTree}
    (ht : t.kind = .forKeyword) (ho : o.kind = .openParen)
    (hi : Derives .forInitializer Γ d T i (s₁ :: T₁)) (hs₁ : s₁.kind = .semicolon)
    (he : Derives (.expressionBefore .semicolon) Γ d T₁ e (s₂ :: T₂)) (hs₂ : s₂.kind = .semicolon)
    (hu : Derives (.expressionBefore .closeParen) Γ d T₂ u (c :: T₃)) (hc : c.kind = .closeParen)
    (hx : Derives .statement Γ d T₃ [x] rest)
    (hn : Category.bareStatement.reach (t :: o :: T) < n + 1)
    (hs : Ready Γ d (t :: o :: T) known s) :
    Leads (forStatement parse) s (Has ([·]) Γ d known
      [node (.forStatement i.head? e.head? u.head? (some x))] rest) := by
  have hlength₁ := hi.length_le
  have hlength₂ := he.length_le
  have hlength₃ := hu.length_le
  simp only [List.length_cons] at hlength₁ hlength₂ hlength₃
  have hreach : ∀ {C : Category} {T'}, T'.length ≤ T.length → C.reach T' < n + 1 := fun h =>
    Category.reach_lt hn (by simp only [List.length_cons]; omega)
  refine .position fun start => (Leads.expect hs ht (by decide)).bind fun _ s hs =>
    (Leads.expect hs ho (by decide)).bind fun _ s hs => ?_
  refine (readsAll_forInitializer hparse hi (hreach le_rfl) hs).bind fun first s hs =>
    (Leads.expect hs hs₁ (by decide)).bind fun _ s hs => ?_
  refine (readsAll_expressionBefore hparse _ he (hreach (by omega)) hs).bind fun condition s hs =>
    (Leads.expect hs hs₂ (by decide)).bind fun _ s hs => ?_
  refine (readsAll_expressionBefore hparse _ hu (hreach (by omega)) hs).bind fun increment s hs =>
    (Leads.expect hs hc (by decide)).bind fun _ s hs => ?_
  refine (hparse.past .statement hx hn (by simp only [List.length_cons]; omega) hs).bind
    fun body s hs => ?_
  exact .finish hs (fun _ hp => by simp [hp]) (by simp +contextual)

/-! ### Exports -/

theorem readsAll_defaultExport :
    ReadsAll Option.toList (n + 1) .defaultExport (defaultExport parse) := by
  intro Γ d T ts rest known s h hn hs
  refine .runs hs.run_kind ?_
  have hstay : ∀ {c : Category}, c.rank ≤ 5 → c.reach T < n + 1 :=
    Category.reach_lt_of_rank hn le_rfl
  cases h with
  | defaultFunction hstarts hx =>
    have hread := (readsAll_functionDeclaration hparse false).some hx (hstay (Nat.zero_le _)) hs
    rcases hs.run_of_startsFunction hstarts with hk | ⟨hk, hrun⟩ <;> simp only [hk]
    · exact hread
    · exact .runs hrun (.then_ rfl hread)
  | defaultClass hx =>
    have hk : kindOf T = .classKeyword := eq_of_beq (hx.first rfl)
    simp only [hk]
    exact (readsAll_classLike hparse _ _).some hx (hstay (Nat.zero_le _)) hs
  | defaultExpression hfunction hclass he hend =>
    obtain ⟨b, hrun, hasync⟩ := hs.exists_run_of_not_startsFunction hfunction
    split
    · next hk => simp [startsFunction, hk] at hfunction
    · next hk => exact absurd hk hclass
    · refine .runs hrun (.else_ hasync ?_)
      refine (hparse.tighter .assignment he hn le_rfl (by decide) hs).bind fun value s₁ hs₁ => ?_
      exact (Leads.semicolon hs₁ hend).bind fun _ s₂ hs₂ => .pure hs₂

theorem readsAll_exportedDeclaration :
    ReadsAll Option.toList (n + 1) .exportedDeclaration (exportedDeclaration parse) := by
  intro Γ d T ts rest known s h hn hs
  refine .runs hs.run_kind ?_
  cases h with
  | exportVariables hx =>
    have hread := (readsAll_variableStatement hparse).some hx
      (Category.reach_lt_of_rank hn le_rfl le_rfl) hs
    rcases hx.kindOf_of_variableStatement with hk | hk | hk <;> simp only [hk] <;> exact hread
  | exportFunction hstarts hx =>
    have hread := (readsAll_functionDeclaration hparse true).some hx
      (Category.reach_lt_of_rank hn le_rfl le_rfl) hs
    rcases hs.run_of_startsFunction hstarts with hk | ⟨hk, hrun⟩ <;> simp only [hk]
    · exact hread
    · exact .runs hrun (.then_ rfl hread)
  | exportClass hx =>
    have hk : kindOf T = .classKeyword := eq_of_beq (hx.first rfl)
    simp only [hk]
    exact (readsAll_classLike hparse _ _).some hx (Category.reach_lt_of_rank hn le_rfl le_rfl) hs

/-! ### All statements -/

theorem readsAll_bareStatement :
    ReadsAll Option.toList (n + 1) .bareStatement (bareStatement parse) := by
  intro Γ d T ts rest known s h hn hs
  have hstay : ∀ {c : Category}, c.rank ≤ 5 → c.reach T < n + 1 :=
    Category.reach_lt_of_rank hn le_rfl
  refine .runs hs.run_kind ?_
  cases h with
  | blockStatement hx =>
    have hk : kindOf T = .openBrace := eq_of_beq (hx.first rfl)
    simp only [hk]
    exact readsAll_block hparse hx (hstay (Nat.zero_le _)) hs
  | emptyStatement ht =>
    simp only [kindOf_cons, ht]
    refine .map (.position fun start => (Leads.expect hs ht (by decide)).bind fun _ s₁ hs₁ => ?_)
    exact .finish hs₁ (List.Subset.refl _) (by simp +contextual)
  | «variables» hx =>
    have hread := (readsAll_variableStatement hparse).some hx (hstay (Nat.zero_le _)) hs
    rcases hx.kindOf_of_variableStatement with hk | hk | hk
    · simp only [hk]
      exact hread
    · obtain ⟨b, hrun, hb⟩ := hs.exists_run_startsLetDeclaration
      rw [hx.startsBinding_of_variableStatement, hk] at hb
      simp only [hk]
      exact .runs hrun (.then_ hb hread)
    · simp only [hk]
      exact hread
  | functionStatement hstarts hx =>
    have hread := (readsAll_functionDeclaration hparse true).some hx (hstay (Nat.zero_le _)) hs
    rcases hs.run_of_startsFunction hstarts with hk | ⟨hk, hrun⟩ <;> simp only [hk]
    · exact hread
    · obtain ⟨b, hrun', hb⟩ := hs.exists_run_startsLetDeclaration
      exact .runs hrun' (.else_ (by simp) (.runs hrun (.then_ rfl hread)))
  | classStatement hx =>
    have hk : kindOf T = .classKeyword := eq_of_beq (hx.first rfl)
    simp only [hk]
    exact (readsAll_classLike hparse _ _).some hx (hstay (Nat.zero_le _)) hs
  | ifStatement ht ho he hc hx hy =>
    simp only [kindOf_cons, ht]
    have hlength := he.length_le
    have hlength' := hx.length_le
    simp only [List.length_cons] at hlength
    refine .map (.position fun start => (Leads.expect hs ht (by decide)).bind fun _ s₁ hs₁ => ?_)
    refine (leads_headCondition hparse ho he hc hn hs₁).bind fun condition s₂ hs₂ => ?_
    refine (hparse.past .statement hx hn (by simp only [List.length_cons]; omega) hs₂).bind
      fun consequent s₃ hs₃ => ?_
    refine (readsAll_alternative hparse hy
      (Category.reach_lt hn (by simp only [List.length_cons]; omega)) hs₃).bind
        fun otherwise s₄ hs₄ => ?_
    exact .finish hs₄ (fun _ hp => by simp [hp]) (by simp +contextual)
  | whileStatement ht ho he hc hx =>
    simp only [kindOf_cons, ht]
    have hlength := he.length_le
    simp only [List.length_cons] at hlength
    refine .map (.position fun start => (Leads.expect hs ht (by decide)).bind fun _ s₁ hs₁ => ?_)
    refine (leads_headCondition hparse ho he hc hn hs₁).bind fun condition s₂ hs₂ => ?_
    refine (hparse.past .statement hx hn (by simp only [List.length_cons]; omega) hs₂).bind
      fun body s₃ hs₃ => ?_
    exact .finish hs₃ (fun _ hp => by simp [hp]) (by simp +contextual)
  | forStatement ht ho hi hs₁ he hs₂ hu hc hx =>
    simp only [kindOf_cons, ht]
    exact .map (leads_forStatement hparse ht ho hi hs₁ he hs₂ hu hc hx hn hs)
  | returnStatement ht hv hend =>
    simp only [kindOf_cons, ht]
    refine .map (.position fun start => (Leads.expect hs ht (by decide)).bind fun _ s₁ hs₁ => ?_)
    refine (readsAll_returnValue hparse hv (Category.reach_lt hn (Nat.lt_succ_self _)) hs₁).bind
      fun value s₂ hs₂ => (Leads.semicolon hs₂ hend).bind fun _ s₃ hs₃ => ?_
    exact .finish hs₃ (fun _ hp => by simp [hp]) (by simp +contextual)
  | throwStatement ht he hend =>
    simp only [kindOf_cons, ht]
    refine .map (.position fun start => (Leads.expect hs ht (by decide)).bind fun _ s₁ hs₁ => ?_)
    refine (readsAll_expression hparse he (Category.reach_lt hn (Nat.lt_succ_self _)) hs₁).bind
      fun value s₂ hs₂ => (Leads.semicolon hs₂ hend).bind fun _ s₃ hs₃ => ?_
    exact .finish hs₃ (fun _ hp => by simp [hp]) (by simp +contextual)
  | exportDefault ht hk hx =>
    simp only [kindOf_cons, ht]
    refine .map (.position fun start => (Leads.expect hs ht (by decide)).bind fun _ s₁ hs₁ => ?_)
    refine (Leads.accept hs₁ (.passed hk) (by decide)).bind ?_
    rintro _ s₂ ⟨rfl, hs₂⟩
    refine (readsAll_defaultExport hparse hx
      (Category.reach_lt hn (Nat.lt_add_of_pos_right Nat.two_pos)) hs₂).bind
      fun exported s₃ hs₃ => ?_
    exact Leads.finish hs₃ (fun _ hp => by simp [hp]) (by simp +contextual)
  | exportDeclaration ht hx =>
    simp only [kindOf_cons, ht]
    refine .map (.position fun start => (Leads.expect hs ht (by decide)).bind fun _ s₁ hs₁ => ?_)
    refine (Leads.accept hs₁ (.absent ?_) (by decide)).bind ?_
    · exact hx.kindOf_ne_defaultKeyword
    rintro _ s₂ ⟨rfl, hs₂⟩
    refine (readsAll_exportedDeclaration hparse hx
      (Category.reach_lt hn (Nat.lt_succ_self _)) hs₂).bind fun declaration s₃ hs₃ => ?_
    exact Leads.finish hs₃ (fun _ hp => by simp [hp]) (by simp +contextual)
  | expressionStatement hstarts he hend =>
    have hread := leads_expressionStatement hparse he hend hn hs
    have hfunction := not_startsFunction hstarts
    rw [startsExpressionStatement] at hstarts
    split
    case h_13 =>
      obtain ⟨b, hrun, hb⟩ := hs.exists_run_startsLetDeclaration
      obtain ⟨b', hrun', hasync⟩ := hs.exists_run_of_not_startsFunction hfunction
      refine .runs hrun (.else_ ?_ (.runs hrun' (.else_ hasync hread)))
      rw [hb]
      intro hlet
      obtain ⟨hk, hbinding⟩ := Bool.and_eq_true_iff.1 hlet
      simp [eq_of_beq hk, hbinding] at hstarts
    all_goals
      next hk => simp [hk] at hstarts

theorem readsAll_statement : ReadsAll Option.toList (n + 1) .statement (statement parse) := by
  intro Γ d T ts rest known s h hn hs
  cases h with
  | statement hd hx =>
    exact .nested hs hd fun s hs =>
      readsAll_bareStatement hparse hx (Category.reach_lt_of_rank hn le_rfl le_rfl) hs

end Rules

/-! ### Scripts -/

variable {parse : Rule → Parser Slot} {n : Nat}

theorem readsRules_body (hparse : ReadsRules n parse) : ReadsRules (n + 1) (body parse)
  | .statement => readsAll_statement hparse
  | .assignment => readsAll_assignmentExpression hparse
  | .binary above => readsAll_binaryExpression hparse above
  | .unary => readsAll_unaryExpression hparse
  | .leftHandSide => readsAll_leftHandSideExpression hparse
  | .construction => readsAll_construction hparse
  | .bindingName => (readsAll_bindingName hparse).some

/-- The rules of the grammar read all phrases that are in reach of the limit. -/
theorem readsRules_parseWithin (limit : Nat) : ReadsRules limit (parseWithin limit) := by
  induction limit with
  | zero => exact fun rule Γ d T ts rest known s h hn hs => absurd hn (Nat.not_lt_zero _)
  | succ limit ih => exact readsRules_body ih

theorem leads_scriptStatements (hparse : ReadsRules n parse) (h : Derives .statements Γ d T ts rest)
    (hend : kindOf rest = .endOfFile) (hn : Category.statement.reach T < n)
    (hs : Ready Γ d T known s) :
    Leads (scriptStatements parse) s (Has id Γ d known ts rest) := by
  refine .collect (L := fun T ts => Derives .statements Γ d T ts rest ∧
    Category.statement.reach T < n) hs ⟨h, hn⟩ fun T ts known s ⟨h, hn⟩ hs => .runs hs.run_kind ?_
  cases h with
  | statementsEnd =>
    simp only [hend]
    exact .pure (.inl ⟨rfl, hs.learn (Forest.reads_nil _)⟩)
  | statementsMore hx hrest =>
    have hk : kindOf T ≠ .closeBrace ∧ kindOf T ≠ .endOfFile := by
      simpa [Category.first] using hx.first rfl
    split
    · next heq => exact absurd heq hk.2
    · next heq => exact absurd heq hk.1
    · refine (leads_listedStatement hparse hx hn hs).bind fun a s₁ hs₁ => .pure ?_
      exact .inr ⟨rfl, [_], _, _, rfl, hx.length_lt rfl,
        ⟨hrest, Category.reach_lt hn (hx.length_lt rfl)⟩, hs₁⟩

end FunctionNaming.Grammar

namespace FunctionNaming.Script

open Grammar

/-- Statements that are derived from the tokens of a script are read without complaints, and the
forest holds their trees. -/
theorem readStatements_of_derives {tokens : List Token} {ts : List SyntaxTree} {last : Token}
    (htokens : Ended tokens) (h : Derives .statements .outermost 0 tokens ts [last])
    (hlast : last.kind = .endOfFile) :
    (readStatements tokens).2.Clean ∧
      (readStatements tokens).2.forest.Reads (readStatements tokens).1 ts := by
  have hstart : Ready .outermost 0 tokens [] (.start tokens) :=
    ⟨⟨rfl, rfl, rfl, htokens, nofun⟩, rfl⟩
  have hhas := leads_scriptStatements (readsRules_parseWithin (6 * tokens.length + 6)) h hlast
    (Nat.lt_succ_self _) hstart
  exact ⟨hhas.clean, hhas.reads _ List.mem_cons_self⟩

end FunctionNaming.Script
