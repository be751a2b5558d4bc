import FunctionNaming.Proofs.Grammar.Sound.Member

/-!
Soundness of the grammar for expressions.
-/

namespace FunctionNaming.Grammar

open SyntaxTree (node)

section Rules

variable {parse : Rule → Parser Slot} (hparse : FindsRules parse) {Γ : Context} {d : Nat}
  {T : List Token} {known : Known} {s : State}

include hparse

/-! ### Comma and assignment -/

theorem finds_expression : Finds Option.toList .expression (expression parse) := by
  intro Γ d T known s hs
  refine .position fun start => (hparse .assignment hs).bind fun first s₁ ⟨ts, T₁, hs₁, h⟩ => ?_
  obtain ⟨e, rfl⟩ := h.single rfl
  have hfirst : Found Option.toList Γ d known (Derives .sequence Γ d T) first s₁ :=
    ⟨_, T₁, hs₁, .sequenceFirst h⟩
  refine .iterateGrowing hfirst fun left s₁ ls T₁ hs₁ hl => ?_
  obtain ⟨l, rfl⟩ := hl.single rfl
  obtain ⟨id, rfl⟩ := hs₁.exists_eq_some
  refine .tells (hs₁.run_isAt _) (.ite (fun hcomma => ?_) fun hcomma => ?_)
  · have hk : kindOf T₁ = .comma := by simpa using hcomma
    refine (Safe.advance hs₁ (by simp [hk])).bind ?_
    rintro _ s₂ ⟨c, T₂, rfl, hs₂⟩
    refine (hparse .assignment hs₂).bind fun right s₃ ⟨rs, T₃, hs₃, hr⟩ => ?_
    obtain ⟨r, rfl⟩ := hr.single rfl
    exact .grow (.finish hs₃ ⟨.sequenceNext hl hk hr, Nat.lt_succ_of_le hr.length_le⟩
      (fun _ hp => by simp [hp]) (by simp +contextual))
  · exact .grown ⟨_, T₁, hs₁, .expression hl (by simpa using hcomma)⟩

theorem safe_yieldExpression (hs : At Γ d T known s) :
    Safe (yieldExpression parse) s (Found ([·]) Γ d known (Derives .yield Γ d T)) := by
  refine .position fun start => (Safe.expect hs (by decide)).bind ?_
  rintro _ s₁ ⟨t, T₁, rfl, ht, hs₁⟩
  -- What comes after the star, or after the word where there is no star.
  have hoperand : ∀ delegates T₂ s₂, At Γ d T₂ known s₂ →
      (∀ e rest, Derives .assignment Γ d T₂ [e] rest → (delegates || !endsYieldAt T₂) = true →
        Derives .yield Γ d (t :: T₁) [node (.yieldExpression delegates (some e))] rest) →
      ((delegates || !endsYieldAt T₂) = false →
        Derives .yield Γ d (t :: T₁) [node (.yieldExpression delegates none)] T₂) →
      Safe (do
        let endsHere ← endsYield
        let operand ← if delegates || !endsHere then parse .assignment else pure none
        finish start (.yieldExpression delegates operand)) s₂
          (Found ([·]) Γ d known (Derives .yield Γ d (t :: T₁))) := by
    intro delegates T₂ s₂ hs₂ hvalue halone
    refine .tells hs₂.run_endsYield (.ite (fun h => ?_) fun h => ?_)
    · refine (hparse .assignment hs₂).bind fun operand s₃ ⟨es, T₃, hs₃, he⟩ => ?_
      obtain ⟨e, rfl⟩ := he.single rfl
      exact .finish hs₃ (hvalue e T₃ he h) (fun _ hp => by simp [hp]) (by simp +contextual)
    · exact Safe.finish hs₂ (halone (by simpa using h))
        (fun _ hp => by simp [hp]) (by simp +contextual)
  have hstar : Safe yieldStar s₁ fun b s₂ => ∃ T₂, At Γ d T₂ known s₂ ∧
      (b = true → ∃ u, u.kind = .star ∧ u.afterLineBreak = false ∧ T₁ = u :: T₂) ∧
      (b = false → T₂ = T₁ ∧ (isBroken T₁ ∨ kindOf T₁ ≠ .star)) := by
    refine .tells hs₁.run_afterLineBreak (.ite (fun hbroken => ?_) fun hbroken => ?_)
    · exact .pure ⟨T₁, hs₁, nofun, fun _ => ⟨rfl, .inl hbroken⟩⟩
    · refine (Safe.accept hs₁ (by decide)).mono fun b s₂ ⟨T₂, haccepts, hs₂⟩ => ⟨T₂, hs₂, ?_, ?_⟩
      · rintro rfl
        obtain ⟨u, hu, rfl⟩ := haccepts
        exact ⟨u, hu, by simpa using hbroken, rfl⟩
      · rintro rfl
        obtain ⟨hk, rfl⟩ := haccepts
        exact ⟨rfl, .inr hk⟩
  refine hstar.bind fun delegates s₂ ⟨T₂, hs₂, hyes, hno⟩ => ?_
  cases delegates with
  | true =>
    obtain ⟨u, hu, hbroken, rfl⟩ := hyes rfl
    refine hoperand true T₂ s₂ hs₂ (fun e rest he _ => ?_) (by simp)
    exact .yieldAll ht hu (by simp [hbroken]) he
  | false =>
    obtain ⟨rfl, hk⟩ := hno rfl
    refine hoperand false _ s₂ hs₂ (fun e rest he h => ?_) fun h => ?_
    · exact .yieldValue ht hk (by simpa using h) he
    · exact .yieldAlone ht hk (by simpa using h)

theorem finds_conditionalExpression :
    Finds Option.toList .conditional (conditionalExpression parse) := by
  intro Γ d T known s hs
  refine .position fun start => (hparse (.binary 0) hs).bind fun condition s₁ ⟨ts, T₁, hs₁, h⟩ => ?_
  obtain ⟨e, rfl⟩ := h.single rfl
  obtain ⟨id, rfl⟩ := hs₁.exists_eq_some
  refine .ite nofun fun _ => ?_
  refine (Safe.accept hs₁ (by decide)).bind fun b s₂ ⟨T₂, haccepts, hs₂⟩ => ?_
  cases b with
  | true =>
    obtain ⟨q, hq, rfl⟩ := haccepts
    refine (Safe.withContext hs₂ fun s' hs' => hparse .assignment hs').bind
      fun whenTrue s₃ ⟨as, T₃, hs₃, ha⟩ => ?_
    obtain ⟨a, rfl⟩ := ha.single rfl
    refine (Safe.expect hs₃ (by decide)).bind ?_
    rintro _ s₄ ⟨c, T₄, rfl, hc, hs₄⟩
    refine (hparse .assignment hs₄).bind fun whenFalse s₅ ⟨bs, T₅, hs₅, hb⟩ => ?_
    obtain ⟨b, rfl⟩ := hb.single rfl
    exact Safe.some (.finish hs₅ (.conditional h hq ha hc hb)
      (fun _ hp => by simp [hp]) (by simp +contextual))
  | false =>
    obtain ⟨hk, rfl⟩ := haccepts
    exact .pure ⟨_, _, hs₂, .noCondition h hk⟩

theorem finds_assignmentExpression :
    Finds Option.toList .assignment (assignmentExpression parse) := by
  intro Γ d T known s hs
  refine .nested hs fun hd s hs => .tells (hs.run_isAt _) (.tells hs.run_context ?_)
  refine .ite (fun hyield => ?_) fun hyield => ?_
  · obtain ⟨-, hgenerator⟩ : _ ∧ Γ.inGenerator = true := by simpa using hyield
    refine (safe_yieldExpression hparse hs).bind fun a s₁ ⟨ts, T₁, hs₁, h⟩ => ?_
    obtain ⟨e, rfl⟩ := h.single rfl
    exact .pure ⟨_, T₁, hs₁, .assignmentYield hd hgenerator h⟩
  refine .tells hs.run_startsArrowFunction (.ite (fun harrow => ?_) fun harrow => ?_)
  · refine (finds_arrowFunction hparse hs).bind fun a s₁ ⟨ts, T₁, hs₁, h⟩ => ?_
    obtain ⟨e, rfl⟩ := h.single rfl
    exact .pure ⟨_, T₁, hs₁, .assignmentArrow hd harrow h⟩
  refine .position fun start =>
    (finds_conditionalExpression hparse hs).bind fun left s₁ ⟨ls, T₁, hs₁, hl⟩ => ?_
  obtain ⟨l, rfl⟩ := hl.single rfl
  obtain ⟨id, rfl⟩ := hs₁.exists_eq_some
  refine .tells hs₁.run_kind (.ite (fun hoperator => ?_) fun hoperator => ?_)
  · have hk : (kindOf T₁).isAssignment = true := by simpa using hoperator
    refine (Safe.advance hs₁ fun hend => ?_).bind ?_
    · rw [hend] at hk
      cases hk
    rintro _ s₂ ⟨o, T₂, rfl, hs₂⟩
    refine (hparse .assignment hs₂).bind fun right s₃ ⟨rs, T₃, hs₃, hr⟩ => ?_
    obtain ⟨r, rfl⟩ := hr.single rfl
    exact Safe.some (.finish hs₃ (.assignment hd harrow hl hk hr)
      (fun _ hp => by simp [hp]) (by simp +contextual))
  · exact .pure ⟨_, T₁, hs₁, .noAssignment hd harrow hl (by simpa using hoperator)⟩

/-! ### Operators -/

theorem finds_binaryExpression (above : Nat) :
    Finds Option.toList (.binary above) (binaryExpression parse above) := by
  intro Γ d T known s hs
  refine .position fun start => (hparse .unary hs).bind fun first s₁ ⟨ts, T₁, hs₁, h⟩ => ?_
  obtain ⟨e, rfl⟩ := h.single rfl
  have hfirst : Found Option.toList Γ d known (Derives (.operands above) Γ d T) first s₁ :=
    ⟨_, T₁, hs₁, .operandsFirst h⟩
  obtain ⟨id, rfl⟩ := hs₁.exists_eq_some
  refine .ite nofun fun _ => .iterateGrowing hfirst fun left s₁ ls T₁ hs₁ hl => ?_
  obtain ⟨l, rfl⟩ := hl.single rfl
  have hstop : stopsOperands Γ above (kindOf T₁) →
      Found Option.toList Γ d known (Derives (.binary above) Γ d T) left s₁ :=
    fun hstop => ⟨_, T₁, hs₁, .binary hl hstop⟩
  refine .tells hs₁.run_kind ?_
  split
  · next precedence hprecedence =>
    refine .ite (fun hlow => .grown (hstop ?_)) fun hlow => .tells hs₁.run_context ?_
    · simp [stopsOperands, hprecedence, hlow]
    refine .ite (fun hin => .grown (hstop ?_)) fun hin => ?_
    · simp [stopsOperands, hprecedence, hin]
    refine (Safe.advance hs₁ fun hend => ?_).bind ?_
    · rw [hend] at hprecedence
      cases hprecedence
    rintro _ s₂ ⟨o, T₂, rfl, hs₂⟩
    refine (hparse (.binary precedence) hs₂).bind fun right s₃ ⟨rs, T₃, hs₃, hr⟩ => ?_
    obtain ⟨r, rfl⟩ := hr.single rfl
    have hgoes : ¬stopsOperands Γ above o.kind := by
      rw [kindOf_cons] at hprecedence hin
      simp [stopsOperands, hprecedence, hlow, hin]
    exact .grow (.finish hs₃
      ⟨.operandsNext hl hprecedence hgoes hr, Nat.lt_succ_of_le hr.length_le⟩
        (fun _ hp => by simp [hp]) (by simp +contextual))
  · next hprecedence => exact .grown (hstop (by simp [stopsOperands, hprecedence]))

theorem finds_unaryExpression : Finds Option.toList .unary (unaryExpression parse) := by
  intro Γ d T known s hs
  refine .position fun start => .tells hs.run_kind (.ite (fun hprefix => ?_) fun _ => ?_)
  · refine .nested hs fun hd s hs => (Safe.advance hs fun hend => ?_).bind ?_
    · rw [hend] at hprefix
      cases hprefix
    rintro _ s₁ ⟨o, T₁, rfl, hs₁⟩
    refine (hparse .unary hs₁).bind fun operand s₂ ⟨es, T₂, hs₂, he⟩ => ?_
    obtain ⟨e, rfl⟩ := he.single rfl
    exact Safe.some (.finish hs₂ (.prefixed hd hprefix he)
      (fun _ hp => by simp [hp]) (by simp +contextual))
  · refine (hparse .leftHandSide hs).bind fun operand s₁ ⟨es, T₁, hs₁, he⟩ => ?_
    obtain ⟨e, rfl⟩ := he.single rfl
    obtain ⟨id, rfl⟩ := hs₁.exists_eq_some
    refine .tells hs₁.run_kind (.tells hs₁.run_afterLineBreak (.ite (fun hpostfix => ?_) fun h => ?_))
    · obtain ⟨hk, hbroken⟩ : (kindOf T₁).isPostfixOperator = true ∧ isBroken T₁ = false := by
        simpa using hpostfix
      refine (Safe.advance hs₁ fun hend => ?_).bind ?_
      · rw [hend] at hk
        cases hk
      rintro _ s₂ ⟨o, T₂, rfl, hs₂⟩
      refine Safe.some (.finish hs₂ (.postfixed he hk ?_)
        (fun _ hp => by simp [hp]) (by simp +contextual))
      simpa using hbroken
    · exact .pure ⟨_, T₁, hs₁, .operand he (by simpa using h)⟩

/-! ### Expressions that stand by themselves -/

theorem finds_element : Finds Option.toList .element (element parse) := by
  intro Γ d T known s hs
  refine .tells (hs.run_isAt _) (.ite (fun _ => ?_) fun _ => ?_)
  · refine (finds_spread hparse hs).bind fun a s₁ ⟨ts, T₁, hs₁, h⟩ => ?_
    obtain ⟨e, rfl⟩ := h.single rfl
    exact .pure ⟨_, T₁, hs₁, .elementSpread h⟩
  · refine (hparse .assignment hs).mono fun a s₁ ⟨ts, T₁, hs₁, h⟩ => ?_
    obtain ⟨e, rfl⟩ := h.single rfl
    exact ⟨_, T₁, hs₁, .element h⟩

omit hparse in
/-- A word that is an expression by itself. -/
theorem safe_keywordExpression {shape : Shape} {shape' : ShapeOf SyntaxTree}
    (hs : At Γ d T known s) (hshape : Gives known shape shape')
    (hkeyword : keywordShape? (kindOf T) = some shape') :
    Safe (some <$> keywordExpression shape) s
      (Found Option.toList Γ d known (Derives .primary Γ d T)) := by
  refine .map (.position fun start => (Safe.advance hs fun hend => ?_).bind ?_)
  · rw [hend] at hkeyword
    cases hkeyword
  rintro _ s₁ ⟨t, T₁, rfl, hs₁⟩
  exact .finish hs₁ (.primaryKeyword hkeyword) (List.Subset.refl _) hshape

omit hparse in
/-- An expression of a sort that can stand by itself. -/
theorem safe_primary {p : Parser NodeId} {F : List SyntaxTree → List Token → Prop}
    (hp : Safe p s (Found ([·]) Γ d known F))
    (hF : ∀ ts T', F ts T' → Derives .primary Γ d T ts T') :
    Safe (some <$> p) s (Found Option.toList Γ d known (Derives .primary Γ d T)) :=
  .map (hp.mono fun _ _ ⟨ts, T', hs', h⟩ => ⟨ts, T', hs', hF ts T' h⟩)

theorem finds_primaryExpression : Finds Option.toList .primary (primaryExpression parse) := by
  intro Γ d T known s hs
  have hshape : ∀ {shape : Shape} {shape' : ShapeOf SyntaxTree},
      (∀ g : NodeId → Option SyntaxTree, shape.replace? g = some shape') →
      Gives known shape shape' := fun h g _ => h g
  have hfunction : startsFunction T → Safe (some <$> functionExpression parse) s
      (Found Option.toList Γ d known (Derives .primary Γ d T)) := fun hstarts => by
    refine safe_primary (finds_functionExpression hparse hs) fun ts T' h => ?_
    obtain ⟨e, rfl⟩ := h.single rfl
    exact .primaryFunction hstarts h
  have hliteral : kindOf T = .string ∨ kindOf T = .number → Safe (some <$> literal) s
      (Found Option.toList Γ d known (Derives .primary Γ d T)) := fun hk => by
    refine safe_primary (safe_literal hs hk) fun ts T' h => ?_
    obtain ⟨e, rfl⟩ := h.single rfl
    exact .primaryLiteral h
  refine .tells hs.run_kind ?_
  split
  · next hk => exact hfunction (by simp [startsFunction, hk])
  · refine safe_primary (finds_classLike hparse .expression false hs) fun ts T' h => ?_
    obtain ⟨e, rfl⟩ := h.single rfl
    exact .primaryClass h
  · refine .map (.position fun start => (Safe.expect hs (by decide)).bind ?_)
    rintro _ s₁ ⟨t, T₁, rfl, ht, hs₁⟩
    refine (Safe.withContext hs₁ fun s' hs' => finds_expression hparse hs').bind
      fun inner s₂ ⟨es, T₂, hs₂, he⟩ => ?_
    obtain ⟨e, rfl⟩ := he.single rfl
    refine (Safe.expect hs₂ (by decide)).bind ?_
    rintro _ s₃ ⟨c, T₃, rfl, hc, hs₃⟩
    exact .finish hs₃ (.parenthesized ht he hc) (fun _ hp => by simp [hp]) (by simp +contextual)
  · refine .map (.position fun start => (Safe.expect hs (by decide)).bind ?_)
    rintro _ s₁ ⟨t, T₁, rfl, ht, hs₁⟩
    refine (Safe.withContext hs₁ fun s' hs' =>
      finds_commaListWithHoles rfl (finds_element hparse) hs').bind
      fun elements s₂ ⟨es, T₂, hs₂, he⟩ => ?_
    refine (Safe.expect hs₂ (by decide)).bind ?_
    rintro _ s₃ ⟨c, T₃, rfl, hc, hs₃⟩
    exact .finish hs₃ (.arrayLiteral ht he hc) (fun _ hp => by simp [hp]) (by simp +contextual)
  · refine safe_primary (finds_objectLiteral hparse hs) fun ts T' h => ?_
    obtain ⟨e, rfl⟩ := h.single rfl
    exact .primaryObject h
  · next hk => exact safe_keywordExpression hs (hshape fun _ => rfl) (by rw [hk]; rfl)
  · next hk => exact safe_keywordExpression hs (hshape fun _ => rfl) (by rw [hk]; rfl)
  · next hk => exact safe_keywordExpression hs (hshape fun _ => rfl) (by rw [hk]; rfl)
  · next hk => exact safe_keywordExpression hs (hshape fun _ => rfl) (by rw [hk]; rfl)
  · next hk => exact safe_keywordExpression hs (hshape fun _ => rfl) (by rw [hk]; rfl)
  · next hk => exact hliteral (.inl hk)
  · next hk => exact hliteral (.inr hk)
  · obtain ⟨b, hrun, hb⟩ := hs.exists_run_startsAsyncFunction
    refine .tells hrun (.ite (fun hasync => ?_) fun hasync => ?_)
    · refine hfunction ?_
      rw [hb] at hasync
      simp [startsFunction, hasync]
    refine .tells hs.run_isIdentifier (.ite (fun hbinds => ?_) fun _ => ?_)
    · refine safe_primary (finds_identifier hs) fun ts T' h => ?_
      obtain ⟨e, rfl⟩ := h.single rfl
      refine .primaryName ?_ h
      rw [hb] at hasync
      simp_all [startsFunction]
    · exact Safe.complain.bind fun _ _ h => h.elim

/-! ### Accesses and calls -/

theorem finds_argumentList : Finds id .arguments (argumentList parse) := by
  intro Γ d T known s hs
  refine (Safe.expect hs (by decide)).bind ?_
  rintro _ s₁ ⟨t, T₁, rfl, ht, hs₁⟩
  refine (Safe.withContext hs₁ fun s' hs' =>
    finds_commaList rfl (finds_element hparse) .closeParen hs').bind
    fun arguments s₂ ⟨as, T₂, hs₂, ha⟩ => ?_
  refine (Safe.expect hs₂ (by decide)).bind ?_
  rintro _ s₃ ⟨c, T₃, rfl, hc, hs₃⟩
  exact .pure ⟨as, T₃, hs₃, .arguments ht ha hc⟩

/-- That no access, and no call where calls are allowed, goes on with `k`. -/
def stopsChain (calls : Bool) (k : TokenKind) : Prop :=
  k ≠ .dot ∧ k ≠ .openBracket ∧ (calls = true → k ≠ .openParen)

theorem safe_accesses {start : Nat} {object : Slot} {calls : Bool} {T₀ : List Token}
    (h : Found Option.toList Γ d known (Derives (.chain calls) Γ d T₀) object s) :
    Safe (accesses parse start object calls) s (Found Option.toList Γ d known fun ts T =>
      Derives (.chain calls) Γ d T₀ ts T ∧ stopsChain calls (kindOf T)) := by
  refine .iterateGrowing h fun object s₁ os T₁ hs₁ ho => ?_
  obtain ⟨o, rfl⟩ := ho.single rfl
  refine .tells hs₁.run_kind ?_
  split
  · next hk =>
    refine (Safe.advance hs₁ (by simp [hk])).bind ?_
    rintro _ s₂ ⟨p, T₂, rfl, hs₂⟩
    refine (finds_propertyWord hs₂).bind fun name s₃ ⟨ns, T₃, hs₃, hn⟩ => ?_
    obtain ⟨n, rfl⟩ := hn.single rfl
    exact .grow (.finish hs₃ ⟨.propertyAccess ho hk hn, Nat.lt_succ_of_le hn.length_le⟩
      (fun _ hp => by simp [hp]) (by simp +contextual))
  · next hk =>
    refine (Safe.advance hs₁ (by simp [hk])).bind ?_
    rintro _ s₂ ⟨p, T₂, rfl, hs₂⟩
    refine (Safe.withContext hs₂ fun s' hs' => finds_expression hparse hs').bind
      fun argument s₃ ⟨as, T₃, hs₃, ha⟩ => ?_
    obtain ⟨a, rfl⟩ := ha.single rfl
    refine (Safe.expect hs₃ (by decide)).bind ?_
    rintro _ s₄ ⟨c, T₄, rfl, hc, hs₄⟩
    have hlength := ha.length_le
    refine .grow (.finish hs₄ ⟨.elementAccess ho hk ha hc, ?_⟩
      (fun _ hp => by simp [hp]) (by simp +contextual))
    simp only [List.length_cons] at hlength ⊢
    omega
  · next hk =>
    cases calls with
    | true =>
      refine .ite (fun _ => ?_) (absurd rfl)
      refine (finds_argumentList hparse hs₁).bind fun arguments s₂ ⟨as, T₂, hs₂, ha⟩ => ?_
      exact .grow (.finish hs₂ ⟨.call ho ha, ha.length_lt rfl⟩
        (fun _ hp => by simp [hp]) (by simp +contextual))
    | false =>
      refine .ite nofun fun _ => .grown ⟨_, T₁, hs₁, ho, ?_⟩
      simp [stopsChain, hk]
  · next hdot hbracket hparen =>
    exact .grown ⟨_, T₁, hs₁, ho, hdot, hbracket, fun _ => hparen⟩

theorem safe_chain (calls : Bool) (hs : At Γ d T known s) :
    Safe (chain parse calls) s (Found Option.toList Γ d known fun ts T' =>
      Derives (.chain calls) Γ d T ts T' ∧ stopsChain calls (kindOf T')) := by
  have hrest : ∀ start object s₁,
      Found Option.toList Γ d known (fun ts T' => (∃ t, ts = [t]) ∧
        Derives (.chain calls) Γ d T ts T') object s₁ →
      Safe (do
        if object.isNone then return none
        accesses parse start object calls) s₁ (Found Option.toList Γ d known fun ts T' =>
          Derives (.chain calls) Γ d T ts T' ∧ stopsChain calls (kindOf T')) := by
    rintro start object s₁ ⟨ts, T₁, hs₁, ⟨o, rfl⟩, h⟩
    obtain ⟨id, rfl⟩ := hs₁.exists_eq_some
    exact .ite nofun fun _ => safe_accesses hparse ⟨_, T₁, hs₁, h⟩
  refine .position fun start => .tells (hs.run_isAt _) (.ite (fun _ => ?_) fun _ => ?_)
  · refine (hparse .construction hs).bind fun object s₁ ⟨ts, T₁, hs₁, h⟩ => ?_
    obtain ⟨o, rfl⟩ := h.single rfl
    exact hrest start object s₁ ⟨_, T₁, hs₁, ⟨o, rfl⟩, .chainNew h⟩
  · refine (finds_primaryExpression hparse hs).bind fun object s₁ ⟨ts, T₁, hs₁, h⟩ => ?_
    obtain ⟨o, rfl⟩ := h.single rfl
    exact hrest start object s₁ ⟨_, T₁, hs₁, ⟨o, rfl⟩, .chainFirst h⟩

theorem finds_construction : Finds Option.toList .construction (construction parse) := by
  intro Γ d T known s hs
  refine .nested hs fun hd s hs => .position fun start => (Safe.expect hs (by decide)).bind ?_
  rintro _ s₁ ⟨t, T₁, rfl, ht, hs₁⟩
  refine (safe_chain hparse false hs₁).bind ?_
  rintro callee s₂ ⟨cs, T₂, hs₂, hc, hdot, hbracket, -⟩
  obtain ⟨e, rfl⟩ := hc.single rfl
  refine .tells (hs₂.run_isAt _) (.ite (fun _ => ?_) fun hparen => ?_)
  · have harguments : Safe (some <$> argumentList parse) s₂ fun r s₃ => ∃ ids as T₃, r = some ids ∧
        At Γ (d + 1) T₃ ((ids, as) :: (callee.toList, [e]) :: known) s₃ ∧
        Derives .arguments Γ (d + 1) T₂ as T₃ :=
      .map ((finds_argumentList hparse hs₂).mono fun ids s₃ ⟨as, T₃, hs₃, ha⟩ =>
        ⟨ids, as, T₃, rfl, hs₃, ha⟩)
    refine harguments.bind ?_
    rintro _ s₃ ⟨ids, as, T₃, rfl, hs₃, ha⟩
    exact Safe.some (.finish hs₃ (.newCall hd ht hc ha)
      (fun _ hp => by simp [hp]) (by simp +contextual))
  · refine Safe.some (.finish hs₂ (.new hd ht hc hdot hbracket (by simpa using hparen))
      (fun _ hp => by simp [hp]) (by simp +contextual))

theorem finds_leftHandSideExpression :
    Finds Option.toList .leftHandSide (leftHandSideExpression parse) := by
  intro Γ d T known s hs
  refine (safe_chain hparse true hs).mono ?_
  rintro a s' ⟨ts, T', hs', h, hdot, hbracket, hparen⟩
  obtain ⟨e, rfl⟩ := h.single rfl
  exact ⟨_, T', hs', .leftHandSide h hdot hbracket (hparen rfl)⟩

end Rules

end FunctionNaming.Grammar
