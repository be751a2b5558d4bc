import FunctionNaming.Proofs.Grammar.Reads.Member

/-!
Completeness of the grammar for expressions. Phrases that are built up from the left are read by
loops: the first phrase is read, and then the loop goes on from each phrase to the next larger one.
-/

namespace FunctionNaming.Grammar

open SyntaxTree (node)

variable {Γ : Context} {d : Nat} {T T' rest : List Token} {e : SyntaxTree} {known : Known}
  {s : State}

/-! ### Phrases that grow from the left -/

/-- An expression with commas grows from its first part: what holds of each phrase if it holds of
the next larger one holds of the first if it holds of the whole. -/
theorem Derives.exists_first_of_sequence (h : Derives .sequence Γ d T [e] rest) :
    ∃ e₀ T₀, Derives .assignment Γ d T [e₀] T₀ ∧ ∀ P : SyntaxTree → List Token → Prop,
      (∀ l r c T₁ T', Derives .sequence Γ d T [l] (c :: T₁) → c.kind = .comma →
        Derives .assignment Γ d T₁ [r] T' → P (node (.binary (some l) .comma (some r))) T' →
        P l (c :: T₁)) → P e rest → P e₀ T₀ := by
  generalize hc : Category.sequence = c at h
  generalize hts : [e] = ts at h
  induction h generalizing e with
  | sequenceFirst he =>
    cases hts
    exact ⟨_, _, he, fun P _ hlast => hlast⟩
  | sequenceNext hl hcomma hr ih =>
    cases hts
    obtain ⟨e₀, T₀, he₀, hgrow⟩ := ih rfl rfl
    exact ⟨e₀, T₀, he₀, fun P hP hlast => hgrow P hP (hP _ _ _ _ _ hl hcomma hr hlast)⟩
  | _ => cases hc

theorem Derives.exists_first_of_operands {above : Nat}
    (h : Derives (.operands above) Γ d T [e] rest) :
    ∃ e₀ T₀, Derives .unary Γ d T [e₀] T₀ ∧ ∀ P : SyntaxTree → List Token → Prop,
      (∀ l r o precedence T₁ T', Derives (.operands above) Γ d T [l] (o :: T₁) →
        o.kind.precedence? = some precedence → ¬stopsOperands Γ above o.kind →
        Derives (.binary precedence) Γ d T₁ [r] T' →
        P (node (.binary (some l) o.kind (some r))) T' → P l (o :: T₁)) →
      P e rest → P e₀ T₀ := by
  generalize hc : Category.operands above = c at h
  generalize hts : [e] = ts at h
  induction h generalizing e with
  | operandsFirst he =>
    cases hts
    exact ⟨_, _, he, fun P _ hlast => hlast⟩
  | operandsNext hl hprecedence hgoes hr ih =>
    cases hts
    cases hc
    obtain ⟨e₀, T₀, he₀, hgrow⟩ := ih rfl rfl
    exact ⟨e₀, T₀, he₀, fun P hP hlast =>
      hgrow P hP (hP _ _ _ _ _ _ hl hprecedence hgoes hr hlast)⟩
  | _ => cases hc

theorem Derives.exists_first_of_chain {calls : Bool} (h : Derives (.chain calls) Γ d T [e] rest) :
    ∃ e₀ T₀, (Derives .primary Γ d T [e₀] T₀ ∨ Derives .construction Γ d T [e₀] T₀) ∧
      ∀ P : SyntaxTree → List Token → Prop,
      (∀ o x p T₁ T', Derives (.chain calls) Γ d T [o] (p :: T₁) → p.kind = .dot →
        Derives .word Γ d T₁ [x] T' → P (node (.propertyAccess (some o) (some x))) T' →
        P o (p :: T₁)) →
      (∀ o a p c T₁ T', Derives (.chain calls) Γ d T [o] (p :: T₁) →
        p.kind = .openBracket → Derives .expression Γ.outsideForHead d T₁ [a] (c :: T') →
        c.kind = .closeBracket → P (node (.elementAccess (some o) (some a))) T' → P o (p :: T₁)) →
      (∀ o as T₁ T', calls = true → Derives (.chain calls) Γ d T [o] T₁ →
        Derives .arguments Γ d T₁ as T' → P (node (.call (some o) as)) T' → P o T₁) →
      P e rest → P e₀ T₀ := by
  generalize hc : Category.chain calls = c at h
  generalize hts : [e] = ts at h
  induction h generalizing e with
  | chainFirst he =>
    cases hts
    exact ⟨_, _, .inl he, fun P _ _ _ hlast => hlast⟩
  | chainNew he =>
    cases hts
    exact ⟨_, _, .inr he, fun P _ _ _ hlast => hlast⟩
  | propertyAccess ho hdot hx ih =>
    cases hts
    cases hc
    obtain ⟨e₀, T₀, he₀, hgrow⟩ := ih rfl rfl
    exact ⟨e₀, T₀, he₀, fun P hproperty helement hcall hlast =>
      hgrow P hproperty helement hcall (hproperty _ _ _ _ _ ho hdot hx hlast)⟩
  | elementAccess ho hbracket ha hclose ih _ =>
    cases hts
    cases hc
    obtain ⟨e₀, T₀, he₀, hgrow⟩ := ih rfl rfl
    exact ⟨e₀, T₀, he₀, fun P hproperty helement hcall hlast =>
      hgrow P hproperty helement hcall (helement _ _ _ _ _ _ ho hbracket ha hclose hlast)⟩
  | call ho ha ih _ =>
    cases hts
    cases hc
    obtain ⟨e₀, T₀, he₀, hgrow⟩ := ih rfl rfl
    exact ⟨e₀, T₀, he₀, fun P hproperty helement hcall hlast =>
      hgrow P hproperty helement hcall (hcall _ _ _ _ rfl ho ha hlast)⟩
  | _ => cases hc

/-! ### First tokens that tell expressions apart -/

/-- Where `yield` is an operator, only expressions of this operator begin with the word. -/
theorem not_yield_of_conditional {ts : List SyntaxTree} (h : Derives .conditional Γ d T ts rest) :
    ¬(kindOf T == .yieldKeyword && Γ.inGenerator) = true := by
  have hfirst := h.first rfl
  intro hyield
  obtain ⟨hk, hgenerator⟩ := Bool.and_eq_true_iff.1 hyield
  rw [eq_of_beq hk] at hfirst
  have hbinds : Γ.binds .yieldKeyword = true := hfirst
  simp [Context.binds, hgenerator] at hbinds

theorem not_yield_of_startsArrow (h : startsArrow Γ T = true) :
    ¬(kindOf T == .yieldKeyword && Γ.inGenerator) = true := by
  intro hyield
  obtain ⟨hk, hgenerator⟩ := Bool.and_eq_true_iff.1 hyield
  simp [startsArrow, eq_of_beq hk, Context.binds, hgenerator] at h

theorem not_prefix_of_leftHandSide {ts : List SyntaxTree}
    (h : Derives .leftHandSide Γ d T ts rest) : ¬(kindOf T).isPrefixOperator = true := by
  have hfirst : Γ.startsChain (kindOf T) = true := h.first rfl
  intro hprefix
  generalize kindOf T = k at hprefix hfirst
  cases k <;> first | (cases hprefix; done) | cases hfirst

theorem Context.binds_cases {k : TokenKind} (h : Γ.binds k = true) :
    k = .identifier ∨ k = .letKeyword ∨ k = .staticKeyword ∨ k = .yieldKeyword ∨
      k = .asyncKeyword ∨ k = .getKeyword ∨ k = .setKeyword := by
  cases k <;> first | (cases h; done) | simp

theorem keywordShape?_cases {k : TokenKind} {shape : ShapeOf SyntaxTree}
    (h : keywordShape? k = some shape) :
    k = .thisKeyword ∧ shape = .thisExpression ∨ k = .superKeyword ∧ shape = .superExpression ∨
      k = .trueKeyword ∧ shape = .trueLiteral ∨ k = .falseKeyword ∧ shape = .falseLiteral ∨
      k = .nullKeyword ∧ shape = .nullLiteral := by
  cases k <;> cases h <;> simp

/-- Where a function begins, its word is ahead or is seen behind `async`. -/
theorem At.run_of_startsFunction (hs : At Γ d T known s) (h : startsFunction T = true) :
    kindOf T = .functionKeyword ∨
      kindOf T = .asyncKeyword ∧ startsAsyncFunction.run s = (true, s) := by
  rcases Bool.or_eq_true_iff.1 h with hk | hasync
  · exact .inl (eq_of_beq hk)
  · obtain ⟨b, hrun, hb⟩ := hs.exists_run_startsAsyncFunction
    rw [hasync] at hb
    obtain ⟨hk, rfl⟩ := Bool.and_eq_true_iff.1 hb
    exact .inr ⟨eq_of_beq hk, hrun⟩

theorem At.exists_run_of_not_startsFunction (hs : At Γ d T known s) (h : ¬startsFunction T = true) :
    ∃ b, startsAsyncFunction.run s = (b, s) ∧ ¬(kindOf T == .asyncKeyword && b) = true := by
  obtain ⟨b, hrun, hb⟩ := hs.exists_run_startsAsyncFunction
  refine ⟨b, hrun, fun hasync => h (Bool.or_eq_true_iff.2 (.inr ?_))⟩
  rwa [← hb]

section Rules

variable {parse : Rule → Parser Slot} {n : Nat} (hparse : ReadsRules n parse)

include hparse

/-! ### Comma and assignment -/

theorem readsAll_expression : ReadsAll Option.toList (n + 1) .expression (expression parse) := by
  intro Γ d T ts rest known s h hn hs
  cases h with
  | expression h hcomma =>
    obtain ⟨e₀, T₀, he₀, hgrow⟩ := h.exists_first_of_sequence
    refine .position fun start =>
      (hparse.tighter .assignment he₀ hn le_rfl (by decide) hs).bind fun a s₁ hs₁ => ?_
    refine (hgrow (Loops _ Γ d known _) ?_ ?_).start hs₁
    · intro l r c T₁ T' hl hc hr hnext
      refine hnext.next (Nat.lt_succ_of_le hr.length_le) fun id s hs => ?_
      refine .runs (hs.run_isAt _) (.then_ (by simp [hc]) ?_)
      refine (Leads.advance hs (by simp [hc])).bind fun _ s₁ hs₁ => ?_
      refine (hparse.past .assignment hr hn hl.length_le hs₁).bind fun right s₂ hs₂ => ?_
      exact .grow (.finish hs₂ (fun _ hp => by simp [hp]) (by simp +contextual))
    · refine .last fun id s hs => .runs (hs.run_isAt _) (.else_ (by simp [hcomma]) (.pure ?_))
      exact ⟨rfl, hs⟩

omit hparse in
theorem leads_yieldStar (h : isBroken T = true ∨ kindOf T ≠ .star) (hs : Ready Γ d T known s) :
    Leads yieldStar s fun b s' => b = false ∧ Ready Γ d T known s' := by
  refine .runs hs.run_afterLineBreak ?_
  split
  · exact .pure ⟨rfl, hs⟩
  · next hbroken =>
    exact Leads.accept hs (.absent (h.resolve_left hbroken)) (by decide)

theorem readsAll_yieldExpression : ReadsAll ([·]) (n + 1) .yield (yieldExpression parse) := by
  intro Γ d T ts rest known s h hn hs
  refine .position fun start => ?_
  cases h with
  | yieldAlone ht hstar hend =>
    refine (Leads.expect hs ht (by decide)).bind fun _ s₁ hs₁ => (leads_yieldStar hstar hs₁).bind ?_
    rintro _ s₂ ⟨rfl, hs₂⟩
    refine .runs hs₂.run_endsYield (.else_ (by simp [hend]) ?_)
    exact Leads.finish hs₂ (fun _ hp => by simp [hp]) (by simp +contextual)
  | yieldValue ht hstar hend he =>
    refine (Leads.expect hs ht (by decide)).bind fun _ s₁ hs₁ => (leads_yieldStar hstar hs₁).bind ?_
    rintro _ s₂ ⟨rfl, hs₂⟩
    refine .runs hs₂.run_endsYield (.then_ (by simp [hend]) ?_)
    refine (hparse.past .assignment he hn (Nat.lt_succ_self _) hs₂).bind fun operand s₃ hs₃ => ?_
    exact .finish hs₃ (fun _ hp => by simp [hp]) (by simp +contextual)
  | yieldAll ht hstar hbroken he =>
    refine (Leads.expect hs ht (by decide)).bind fun _ s₁ hs₁ => ?_
    have hstars : Leads yieldStar s₁ fun b s' => b = true ∧ Ready Γ d _ known s' :=
      .runs hs₁.run_afterLineBreak (.else_ hbroken
        (Leads.accept hs₁ (.passed hstar) (by decide)))
    refine hstars.bind ?_
    rintro _ s₂ ⟨rfl, hs₂⟩
    refine .runs hs₂.run_endsYield (.then_ rfl ?_)
    refine (hparse.past .assignment he hn (Nat.lt_add_of_pos_right Nat.two_pos) hs₂).bind
      fun operand s₃ hs₃ => ?_
    exact .finish hs₃ (fun _ hp => by simp [hp]) (by simp +contextual)

theorem readsAll_conditionalExpression :
    ReadsAll Option.toList (n + 1) .conditional (conditionalExpression parse) := by
  intro Γ d T ts rest known s h hn hs
  refine .position fun start => ?_
  cases h with
  | noCondition he hquestion =>
    refine (hparse.tighter (.binary 0) he hn le_rfl (by decide) hs).bind fun a s₁ hs₁ => ?_
    obtain ⟨id, rfl⟩ := hs₁.exists_eq_some
    refine .else_ Bool.false_ne_true ?_
    refine (Leads.accept hs₁ (.absent hquestion) (by decide)).bind ?_
    rintro _ s₂ ⟨rfl, hs₂⟩
    exact .pure hs₂
  | conditional he hq ha hc hb =>
    have hlength₁ := he.length_le
    have hlength₂ := ha.length_le
    simp only [List.length_cons] at hlength₁ hlength₂
    refine (hparse.tighter (.binary 0) he hn le_rfl (by decide) hs).bind fun a s₁ hs₁ => ?_
    obtain ⟨id, rfl⟩ := hs₁.exists_eq_some
    refine .else_ Bool.false_ne_true ?_
    refine (Leads.accept hs₁ (.passed hq) (by decide)).bind ?_
    rintro _ s₂ ⟨rfl, hs₂⟩
    refine (Leads.withContext hs₂ fun s' hs' =>
      hparse.past .assignment ha hn (by omega) hs').bind fun whenTrue s₃ hs₃ => ?_
    refine (Leads.expect hs₃ hc (by decide)).bind fun _ s₄ hs₄ => ?_
    refine (hparse.past .assignment hb hn (by omega) hs₄).bind fun whenFalse s₅ hs₅ => ?_
    exact Leads.some (.finish hs₅ (fun _ hp => by simp [hp]) (by simp +contextual))

theorem readsAll_assignmentExpression :
    ReadsAll Option.toList (n + 1) .assignment (assignmentExpression parse) := by
  intro Γ d T ts rest known s h hn hs
  cases h with
  | assignmentYield hd hgenerator he =>
    refine .nested hs hd fun s hs => .runs (hs.run_isAt _) (.runs hs.run_context ?_)
    refine .then_ (Bool.and_eq_true_iff.2 ⟨he.first rfl, hgenerator⟩) ?_
    exact (readsAll_yieldExpression hparse he
      (Category.reach_lt_of_rank hn le_rfl (by decide)) hs).bind fun a s₁ hs₁ => .pure hs₁
  | assignmentArrow hd harrow he =>
    refine .nested hs hd fun s hs => .runs (hs.run_isAt _) (.runs hs.run_context ?_)
    refine .else_ (not_yield_of_startsArrow harrow) (.runs hs.run_startsArrowFunction ?_)
    refine .then_ harrow ?_
    exact (readsAll_arrowFunction hparse he
      (Category.reach_lt_of_rank hn le_rfl (by decide)) hs).bind fun a s₁ hs₁ => .pure hs₁
  | noAssignment hd harrow he hoperator =>
    refine .nested hs hd fun s hs => .runs (hs.run_isAt _) (.runs hs.run_context ?_)
    refine .else_ (not_yield_of_conditional he) (.runs hs.run_startsArrowFunction ?_)
    refine .else_ harrow (.position fun start => ?_)
    refine (readsAll_conditionalExpression hparse he
      (Category.reach_lt_of_rank hn le_rfl le_rfl) hs).bind fun left s₁ hs₁ => ?_
    refine .runs hs₁.run_kind (.else_ (by simp [hoperator]) (.pure hs₁))
  | assignment hd harrow hl hoperator hr =>
    refine .nested hs hd fun s hs => .runs (hs.run_isAt _) (.runs hs.run_context ?_)
    refine .else_ (not_yield_of_conditional hl) (.runs hs.run_startsArrowFunction ?_)
    refine .else_ harrow (.position fun start => ?_)
    refine (readsAll_conditionalExpression hparse hl
      (Category.reach_lt_of_rank hn le_rfl le_rfl) hs).bind fun left s₁ hs₁ => ?_
    obtain ⟨id, rfl⟩ := hs₁.exists_eq_some
    refine .runs hs₁.run_kind (.then_ (by simp [hoperator]) ?_)
    refine (Leads.advance hs₁ fun hend => ?_).bind fun _ s₂ hs₂ => ?_
    · rw [hend] at hoperator
      cases hoperator
    refine (hparse.past .assignment hr hn hl.length_le hs₂).bind fun right s₃ hs₃ => ?_
    exact Leads.some (.finish hs₃ (fun _ hp => by simp [hp]) (by simp +contextual))

/-! ### Operators -/

theorem readsAll_binaryExpression (above : Nat) :
    ReadsAll Option.toList (n + 1) (.binary above) (binaryExpression parse above) := by
  intro Γ d T ts rest known s h hn hs
  cases h with
  | binary h hstops =>
    obtain ⟨e₀, T₀, he₀, hgrow⟩ := h.exists_first_of_operands
    refine .position fun start =>
      (hparse.tighter .unary he₀ hn le_rfl (Nat.lt_succ_self 2) hs).bind fun a s₁ hs₁ => ?_
    obtain ⟨id, rfl⟩ := hs₁.exists_eq_some
    refine .else_ Bool.false_ne_true ((hgrow (Loops _ Γ d known _) ?_ ?_).start hs₁)
    · intro l r o precedence T₁ T' hl hprecedence hgoes hr hnext
      refine hnext.next (Nat.lt_succ_of_le hr.length_le) fun id s hs => .runs hs.run_kind ?_
      simp only [stopsOperands, hprecedence, kindOf_cons, Bool.or_eq_true, decide_eq_true_eq,
        not_or] at hgoes ⊢
      refine .else_ hgoes.1 (.runs hs.run_context (.else_ hgoes.2 ?_))
      refine (Leads.advance hs fun hend => ?_).bind fun _ s₁ hs₁ => ?_
      · rw [hend] at hprecedence
        cases hprecedence
      refine (hparse.past (.binary precedence) hr hn hl.length_le hs₁).bind fun right s₂ hs₂ => ?_
      exact .grow (.finish hs₂ (fun _ hp => by simp [hp]) (by simp +contextual))
    · refine .last fun id s hs => .runs hs.run_kind ?_
      cases hprecedence : (kindOf rest).precedence? with
      | none => exact .pure ⟨rfl, hs⟩
      | some precedence =>
        simp only [stopsOperands, hprecedence, Bool.or_eq_true, decide_eq_true_eq] at hstops
        by_cases hlow : precedence ≤ above
        · exact .then_ hlow (.pure ⟨rfl, hs⟩)
        · refine .else_ hlow (.runs hs.run_context (.then_ (hstops.resolve_left hlow) ?_))
          exact .pure ⟨rfl, hs⟩

theorem readsAll_unaryExpression :
    ReadsAll Option.toList (n + 1) .unary (unaryExpression parse) := by
  intro Γ d T ts rest known s h hn hs
  refine .position fun start => .runs hs.run_kind ?_
  cases h with
  | prefixed hd hprefix he =>
    refine .then_ hprefix (.nested hs hd fun s hs => (Leads.advance hs fun hend => ?_).bind ?_)
    · rw [hend] at hprefix
      cases hprefix
    intro _ s₁ hs₁
    refine (hparse.past .unary he hn (Nat.lt_succ_self _) hs₁).bind fun operand s₂ hs₂ => ?_
    exact Leads.some (.finish hs₂ (fun _ hp => by simp [hp]) (by simp +contextual))
  | postfixed he hpostfixed hbroken =>
    refine .else_ (not_prefix_of_leftHandSide he) ?_
    refine (hparse.tighter .leftHandSide he hn le_rfl (by decide) hs).bind fun operand s₁ hs₁ => ?_
    obtain ⟨id, rfl⟩ := hs₁.exists_eq_some
    refine .runs hs₁.run_kind (.runs hs₁.run_afterLineBreak ?_)
    refine .then_ (by simp [hpostfixed, hbroken]) ?_
    refine (Leads.advance hs₁ fun hend => ?_).bind fun _ s₂ hs₂ => ?_
    · rw [hend] at hpostfixed
      cases hpostfixed
    exact Leads.some (.finish hs₂ (fun _ hp => by simp [hp]) (by simp +contextual))
  | operand he hpostfixed =>
    refine .else_ (not_prefix_of_leftHandSide he) ?_
    refine (hparse.tighter .leftHandSide he hn le_rfl (by decide) hs).bind fun operand s₁ hs₁ => ?_
    refine .runs hs₁.run_kind (.runs hs₁.run_afterLineBreak (.else_ ?_ (.pure hs₁)))
    intro h
    simp only [Bool.and_eq_true, Bool.not_eq_true'] at h
    exact hpostfixed ⟨h.1.2, by simp [h.2]⟩

/-! ### Expressions that stand by themselves -/

theorem readsAll_element : ReadsAll Option.toList (n + 1) .element (element parse) := by
  intro Γ d T ts rest known s h hn hs
  refine .runs (hs.run_isAt _) ?_
  cases h with
  | elementSpread he =>
    refine .then_ (he.first rfl) ?_
    exact (readsAll_spread hparse he (Category.reach_lt_of_rank hn le_rfl (by decide)) hs).bind
      fun a s₁ hs₁ => .pure hs₁
  | element he =>
    have hk : ¬(kindOf T == .ellipsis) = true := by
      have hfirst : Γ.startsExpression (kindOf T) = true := he.first rfl
      intro hk
      rw [eq_of_beq hk] at hfirst
      exact nomatch hfirst
    exact .else_ hk (hparse.tighter .assignment he hn le_rfl (by decide) hs)

omit hparse in
/-- A word that is an expression by itself. -/
theorem leads_keywordExpression {t : Token} {shape : Shape} {shape' : ShapeOf SyntaxTree}
    (hshape : Gives known shape shape') (ht : t.kind ≠ .endOfFile)
    (hs : Ready Γ d (t :: T) known s) :
    Leads (some <$> keywordExpression shape) s (Has Option.toList Γ d known [node shape'] T) := by
  refine .map (.position fun start => (Leads.advance hs ht).bind fun _ s₁ hs₁ => ?_)
  exact .finish hs₁ (List.Subset.refl _) hshape

theorem leads_parenthesized {t c : Token} (ht : t.kind = .openParen) (hc : c.kind = .closeParen)
    (he : Derives .expression Γ.outsideForHead d T [e] (c :: rest))
    (hn : Category.primary.reach (t :: T) < n + 1) (hs : Ready Γ d (t :: T) known s) :
    Leads (parenthesized parse) s (Has ([·]) Γ d known [node (.parenthesized (some e))] rest) := by
  refine .position fun start => (Leads.expect hs ht (by decide)).bind fun _ s₁ hs₁ => ?_
  refine (Leads.withContext hs₁ fun s' hs' =>
    readsAll_expression hparse he (Category.reach_lt hn (Nat.lt_succ_self _)) hs').bind
      fun inner s₂ hs₂ => (Leads.expect hs₂ hc (by decide)).bind fun _ s₃ hs₃ => ?_
  exact .finish hs₃ (fun _ hp => by simp [hp]) (by simp +contextual)

theorem leads_arrayLiteral {t c : Token} {es : List SyntaxTree} (ht : t.kind = .openBracket)
    (hc : c.kind = .closeBracket)
    (he : Derives (.list true .closeBracket .element) Γ.outsideForHead d T es (c :: rest))
    (hn : Category.primary.reach (t :: T) < n + 1) (hs : Ready Γ d (t :: T) known s) :
    Leads (arrayLiteral parse) s (Has ([·]) Γ d known [node (.arrayLiteral es)] rest) := by
  refine .position fun start => (Leads.expect hs ht (by decide)).bind fun _ s₁ hs₁ => ?_
  refine (Leads.withContext hs₁ fun s' hs' =>
    readsAll_commaListWithHoles (readsAll_element hparse) rfl he
      (Category.reach_lt hn (Nat.lt_succ_self _)) hs').bind
      fun elements s₂ hs₂ => (Leads.expect hs₂ hc (by decide)).bind fun _ s₃ hs₃ => ?_
  exact .finish hs₃ (fun _ hp => by simp [hp]) (by simp +contextual)

theorem readsAll_primaryExpression :
    ReadsAll Option.toList (n + 1) .primary (primaryExpression parse) := by
  intro Γ d T ts rest known s h hn hs
  have hstay : ∀ {c : Category}, c.rank = 0 → c.reach T < n + 1 := fun hc =>
    Category.reach_lt_of_rank hn le_rfl (Nat.le_of_eq hc)
  refine .runs hs.run_kind ?_
  cases h with
  | primaryFunction hstarts he =>
    have hread := (readsAll_functionExpression hparse).some he (hstay rfl) hs
    rcases hs.run_of_startsFunction hstarts with hk | ⟨hk, hrun⟩ <;> simp only [hk]
    · exact hread
    · exact .runs hrun (.then_ rfl hread)
  | primaryClass he =>
    have hk : kindOf T = .classKeyword := eq_of_beq (he.first rfl)
    simp only [hk]
    exact (readsAll_classLike hparse _ _).some he (hstay rfl) hs
  | parenthesized ht he hc =>
    simp only [kindOf_cons, ht]
    exact .map (leads_parenthesized hparse ht hc he hn hs)
  | arrayLiteral ht he hc =>
    simp only [kindOf_cons, ht]
    exact .map (leads_arrayLiteral hparse ht hc he hn hs)
  | primaryObject he =>
    have hk : kindOf T = .openBrace := eq_of_beq (he.first rfl)
    simp only [hk]
    exact (readsAll_objectLiteral hparse).some he (hstay rfl) hs
  | primaryKeyword hword =>
    rcases keywordShape?_cases hword with
      ⟨hk, rfl⟩ | ⟨hk, rfl⟩ | ⟨hk, rfl⟩ | ⟨hk, rfl⟩ | ⟨hk, rfl⟩
    all_goals
      simp only [kindOf_cons, hk]
      refine leads_keywordExpression ?_ (by simp [hk]) hs
      exact fun _ _ => rfl
  | primaryLiteral he =>
    have hread := readsAll_literal.some he (hstay rfl) hs
    have hk : kindOf T = .string ∨ kindOf T = .number := by
      simpa [Category.first] using he.first rfl
    rcases hk with hk | hk <;> simp only [hk] <;> exact hread
  | primaryName hfunction he =>
    have hbinds : Γ.binds (kindOf T) = true := he.first rfl
    obtain ⟨b, hrun, hasync⟩ := hs.exists_run_of_not_startsFunction hfunction
    have hread : Leads (do
        if kindOf T == .asyncKeyword && (← startsAsyncFunction) then
          return some (← functionExpression parse)
        if ← isIdentifier then return some (← identifier)
        complain .expressionExpected
        return none) s (Has Option.toList Γ d known _ rest) :=
      .runs hrun (.else_ hasync (.runs hs.run_isIdentifier (.then_ hbinds
        (readsAll_identifier he (hstay rfl) hs).some)))
    rcases Context.binds_cases hbinds with hk | hk | hk | hk | hk | hk | hk <;>
      simp only [hk] at hread ⊢ <;> exact hread

/-! ### Accesses and calls -/

theorem readsAll_argumentList : ReadsAll id (n + 1) .arguments (argumentList parse) := by
  intro Γ d T ts rest known s h hn hs
  cases h with
  | arguments ht ha hc =>
    refine (Leads.expect hs ht (by decide)).bind fun _ s₁ hs₁ => ?_
    refine (Leads.withContext hs₁ fun s' hs' => readsAll_commaList (readsAll_element hparse) rfl rfl
      ha (Category.reach_lt hn (Nat.lt_succ_self _)) hs').bind
        fun arguments s₂ hs₂ => (Leads.expect hs₂ hc (by decide)).bind fun _ s₃ hs₃ => ?_
    exact .pure hs₃

/-- What is read of a chain reaches as far as nothing goes on with it. -/
theorem leads_chain {calls : Bool} (h : Derives (.chain calls) Γ d T [e] rest)
    (hdot : kindOf rest ≠ .dot) (hbracket : kindOf rest ≠ .openBracket)
    (hparen : calls = true → kindOf rest ≠ .openParen)
    (hn : (Category.chain calls).reach T < n + 1) (hs : Ready Γ d T known s) :
    Leads (chain parse calls) s (Has Option.toList Γ d known [e] rest) := by
  obtain ⟨e₀, T₀, he₀, hgrow⟩ := h.exists_first_of_chain
  have haccesses : ∀ {start phrase s}, Has Option.toList Γ d known [e₀] T₀ phrase s →
      Leads (if phrase.isNone then return none else accesses parse start phrase calls) s
        (Has Option.toList Γ d known [e] rest) := by
    intro start phrase s₁ hs₁
    obtain ⟨id, rfl⟩ := hs₁.exists_eq_some
    refine .else_ Bool.false_ne_true ((hgrow (Loops _ Γ d known _) ?_ ?_ ?_ ?_).start hs₁)
    · intro o x p T₁ T' ho hp hx hnext
      refine hnext.next (Nat.lt_succ_of_le hx.length_le) fun id s hs => .runs hs.run_kind ?_
      simp only [kindOf_cons, hp]
      refine (Leads.advance hs (by simp [hp])).bind fun _ s₁ hs₁ => ?_
      refine (readsAll_propertyWord hx (Category.reach_lt hn ho.length_le) hs₁).bind
        fun name s₂ hs₂ => ?_
      exact .grow (.finish hs₂ (fun _ hp => by simp [hp]) (by simp +contextual))
    · intro o x p c T₁ T' ho hp hx hc hnext
      have hlength := hx.length_le
      simp only [List.length_cons] at hlength
      refine hnext.next (by simp only [List.length_cons]; omega) fun id s hs => .runs hs.run_kind ?_
      simp only [kindOf_cons, hp]
      refine (Leads.advance hs (by simp [hp])).bind fun _ s₁ hs₁ => ?_
      refine (Leads.withContext hs₁ fun s' hs' => readsAll_expression hparse hx
        (Category.reach_lt hn ho.length_le) hs').bind fun argument s₂ hs₂ => ?_
      refine (Leads.expect hs₂ hc (by decide)).bind fun _ s₃ hs₃ => ?_
      exact .grow (.finish hs₃ (fun _ hp => by simp [hp]) (by simp +contextual))
    · intro o as T₁ T' hcalls ho ha hnext
      refine hnext.next (ha.length_lt rfl) fun id s hs => .runs hs.run_kind ?_
      have hk : kindOf T₁ = .openParen := eq_of_beq (ha.first rfl)
      simp only [hk, hcalls, if_true]
      refine (readsAll_argumentList hparse ha (Category.reach_lt hn (ho.length_lt rfl)) hs).bind
        fun arguments s₁ hs₁ => ?_
      exact .grow (.finish hs₁ (fun _ hp => by simp [hp]) (by simp +contextual))
    · refine .last fun id s hs => .runs hs.run_kind ?_
      split
      · next hk => exact absurd hk hdot
      · next hk => exact absurd hk hbracket
      · next hk => exact .else_ (fun hcalls => hparen hcalls hk) (.pure ⟨rfl, hs⟩)
      · exact .pure ⟨rfl, hs⟩
  refine .position fun start => .runs (hs.run_isAt _) ?_
  rcases he₀ with he₀ | he₀
  · have hk : ¬(kindOf T == .newKeyword) = true := by
      have hfirst : Γ.startsPrimary (kindOf T) = true := he₀.first rfl
      intro hk
      rw [eq_of_beq hk] at hfirst
      exact nomatch hfirst
    exact .else_ hk ((readsAll_primaryExpression hparse he₀
      (Category.reach_lt_of_rank hn le_rfl (Nat.zero_le _)) hs).bind fun a s₁ => haccesses)
  · exact .then_ (he₀.first rfl) ((hparse.tighter .construction he₀ hn le_rfl Nat.one_pos hs).bind
      fun a s₁ => haccesses)

theorem readsAll_leftHandSideExpression :
    ReadsAll Option.toList (n + 1) .leftHandSide (leftHandSideExpression parse) := by
  intro Γ d T ts rest known s h hn hs
  cases h with
  | leftHandSide he hdot hbracket hparen =>
    exact leads_chain hparse he hdot hbracket (fun _ => hparen) hn hs

theorem readsAll_construction :
    ReadsAll Option.toList (n + 1) .construction (construction parse) := by
  intro Γ d T ts rest known s h hn hs
  cases h with
  | new hd ht he hdot hbracket hparen =>
    refine .nested hs hd fun s hs => .position fun start =>
      (Leads.expect hs ht (by decide)).bind fun _ s₁ hs₁ => ?_
    refine (leads_chain hparse he hdot hbracket nofun (Category.reach_lt hn (Nat.lt_succ_self _))
      hs₁).bind fun callee s₂ hs₂ => ?_
    refine .runs (hs₂.run_isAt _) (.else_ (by simpa using hparen) ?_)
    exact Leads.some (.finish hs₂ (fun _ hp => by simp [hp]) (by simp +contextual))
  | newCall hd ht he ha =>
    have hk := eq_of_beq (ha.first rfl)
    refine .nested hs hd fun s hs => .position fun start =>
      (Leads.expect hs ht (by decide)).bind fun _ s₁ hs₁ => ?_
    refine (leads_chain hparse he (by simp [hk]) (by simp [hk]) nofun
      (Category.reach_lt hn (Nat.lt_succ_self _)) hs₁).bind fun callee s₂ hs₂ => ?_
    refine .runs (hs₂.run_isAt _) (.then_ (by simp [hk]) ?_)
    refine Leads.bind
      (Q := fun a s' => ∃ arguments, a = some arguments ∧ Has id _ _ _ _ _ arguments s')
      (.map ((readsAll_argumentList hparse ha
        (Category.reach_lt hn (Nat.lt_succ_of_le he.length_le)) hs₂).mono
          fun arguments s' h => ⟨arguments, rfl, h⟩)) ?_
    rintro _ s₃ ⟨arguments, rfl, hs₃⟩
    exact Leads.some (.finish hs₃ (fun _ hp => by simp [hp]) (by simp +contextual))

end Rules

end FunctionNaming.Grammar
