import FunctionNaming.Proofs.Grammar.Sound.Binding

/-!
Soundness of the grammar for functions, and for the members of object literals and classes.
-/

namespace FunctionNaming.Grammar

open SyntaxTree (node)

section Rules

variable {parse : Rule → Parser Slot} (hparse : FindsRules parse) {Γ : Context} {d : Nat}
  {T : List Token} {known : Known} {s : State}

include hparse

/-! ### Blocks -/

theorem finds_listedStatement : Finds Option.toList .statement (listedStatement parse) := by
  intro Γ d T known s hs
  refine .tells (a := s.cursor) rfl ((hparse .statement hs).bind fun a s₁ h => ?_)
  refine .tells (a := s₁.cursor) rfl (.tells (a := (kind.run s₁).1) rfl (.ite (fun _ => ?_) fun _ => ?_))
  · exact Safe.complain.bind fun _ _ h => h.elim
  · exact .pure h

theorem finds_statementList : Finds id .statements (statementList parse) := by
  intro Γ d T known s hs
  refine .collect hs fun T known s hs => ?_
  refine .tells (hs.run_isAtOrEnd _) (.ite (fun hend => ?_) fun _ => ?_)
  · refine .pure ⟨[], T, hs.learn (Forest.reads_nil _), ⟨fun _ => .statementsEnd ?_, nofun⟩⟩
    simpa using hend
  · refine (finds_listedStatement hparse hs).bind fun a s₁ ⟨ts, T₁, hs₁, h⟩ => ?_
    obtain ⟨x, rfl⟩ := h.single rfl
    exact .pure ⟨_, T₁, hs₁, ⟨nofun, fun _ => ⟨h.length_lt rfl, fun ts' rest hrest =>
      .statementsMore h hrest⟩⟩⟩

theorem finds_block : Finds Option.toList .block (block parse) := by
  intro Γ d T known s hs
  refine .nested hs fun hd s hs => .position fun start => (Safe.expect hs (by decide)).bind ?_
  rintro _ s₁ ⟨t, T₁, rfl, ht, hs₁⟩
  refine (finds_statementList hparse hs₁).bind fun statements s₂ ⟨xs, T₂, hs₂, hx⟩ => ?_
  refine (Safe.expect hs₂ (by decide)).bind ?_
  rintro _ s₃ ⟨c, T₃, rfl, hc, hs₃⟩
  exact .map (.finish hs₃ (.block hd ht hx hc) (fun _ hp => by simp [hp]) (by simp +contextual))

/-! ### Functions -/

theorem finds_parameterList :
    Finds id (.list false .closeParen .parameter) (parameterList parse) :=
  finds_commaList rfl (finds_parameter hparse).some _

theorem safe_signatureAndBody (isAsync isGenerator : Bool) (hs : At Γ d T known s) :
    Safe (signatureAndBody parse isAsync isGenerator) s fun r s' => ∃ ps b T',
      At Γ d T' ((r.2.toList, [b]) :: (r.1, ps) :: known) s' ∧
      Derives (.signature isAsync isGenerator) Γ d T (ps ++ [b]) T' := by
  have hinner : ∀ s', At (.ofFunction isAsync isGenerator) d T known s' → Safe (do
      expect .openParen
      let parameters ← parameterList parse
      expect .closeParen
      let body ← block parse
      return (parameters, body)) s' fun r s' => ∃ ps b T',
        At (.ofFunction isAsync isGenerator) d T' ((r.2.toList, [b]) :: (r.1, ps) :: known) s' ∧
        Derives (.signature isAsync isGenerator) Γ d T (ps ++ [b]) T' := by
    intro s hs
    refine (Safe.expect hs (by decide)).bind ?_
    rintro _ s₁ ⟨t, T₁, rfl, ht, hs₁⟩
    refine (finds_parameterList hparse hs₁).bind fun parameters s₂ ⟨ps, T₂, hs₂, hp⟩ => ?_
    refine (Safe.expect hs₂ (by decide)).bind ?_
    rintro _ s₃ ⟨c, T₃, rfl, hc, hs₃⟩
    refine (finds_block hparse hs₃).bind fun body s₄ ⟨bs, T₄, hs₄, hb⟩ => ?_
    obtain ⟨b, rfl⟩ := hb.single rfl
    exact .pure ⟨ps, b, T₄, hs₄, .signature ht hp hc hb⟩
  refine (Safe.inContext hs hinner).mono ?_
  rintro r s' ⟨s'', ⟨ps, b, T', hs'', h⟩, rfl⟩
  exact ⟨ps, b, T', hs''.inContext Γ, h⟩

theorem finds_functionDeclaration (nameRequired : Bool) :
    Finds ([·]) (.function .declaration nameRequired) (functionDeclaration parse nameRequired) := by
  intro Γ d T known s hs
  refine .position fun start =>
    (Safe.accept hs (by decide)).bind fun isAsync s₁ ⟨T₁, hasync, hs₁⟩ => ?_
  refine (Safe.expect hs₁ (by decide)).bind ?_
  rintro _ s₂ ⟨t, T₂, rfl, ht, hs₂⟩
  refine (Safe.accept hs₂ (by decide)).bind fun isGenerator s₃ ⟨T₃, hstar, hs₃⟩ => ?_
  refine (finds_declaredName nameRequired hs₃).bind fun name s₄ ⟨n, T₄, hs₄, hn⟩ => ?_
  refine (safe_signatureAndBody hparse isAsync isGenerator hs₄).bind ?_
  rintro ⟨parameters, body⟩ s₅ ⟨ps, b, T₅, hs₅, hsignature⟩
  exact .finish hs₅ (.function hasync ht hstar hn hsignature)
    (fun _ hp => by simp [hp]) (by simp +contextual)

theorem finds_functionExpression :
    Finds ([·]) (.function .expression false) (functionExpression parse) := by
  intro Γ d T known s hs
  refine .position fun start =>
    (Safe.accept hs (by decide)).bind fun isAsync s₁ ⟨T₁, hasync, hs₁⟩ => ?_
  refine (Safe.expect hs₁ (by decide)).bind ?_
  rintro _ s₂ ⟨t, T₂, rfl, ht, hs₂⟩
  refine (Safe.accept hs₂ (by decide)).bind fun isGenerator s₃ ⟨T₃, hstar, hs₃⟩ => ?_
  refine (Safe.withContext hs₃ fun s' hs' => finds_declaredName false hs').bind
    fun name s₄ ⟨n, T₄, hs₄, hn⟩ => ?_
  refine (safe_signatureAndBody hparse isAsync isGenerator hs₄).bind ?_
  rintro ⟨parameters, body⟩ s₅ ⟨ps, b, T₅, hs₅, hsignature⟩
  exact .finish hs₅ (.function hasync ht hstar hn hsignature)
    (fun _ hp => by simp [hp]) (by simp +contextual)

theorem finds_arrowParameters : Finds id .arrowParameters (arrowParameters parse) := by
  intro Γ d T known s hs
  refine (Safe.accept hs (by decide)).bind fun b s₁ ⟨T₁, haccepts, hs₁⟩ => ?_
  cases b with
  | true =>
    obtain ⟨t, ht, rfl⟩ := haccepts
    refine (finds_parameterList hparse hs₁).bind fun parameters s₂ ⟨ps, T₂, hs₂, hp⟩ => ?_
    refine (Safe.expect hs₂ (by decide)).bind ?_
    rintro _ s₃ ⟨c, T₃, rfl, hc, hs₃⟩
    exact .pure ⟨ps, T₃, hs₃, .groupParameters ht hp hc⟩
  | false =>
    obtain ⟨-, rfl⟩ := haccepts
    refine .position fun start => (finds_identifier hs₁).bind fun name s₂ ⟨ns, T₂, hs₂, hn⟩ => ?_
    obtain ⟨n, rfl⟩ := hn.single rfl
    have hparameter : Safe (finish start (.parameter false (some name) none)) s₂
        (Found ([·]) Γ d known (Derives .arrowParameters Γ d _)) :=
      .finish hs₂ (.nameParameter hn) (fun _ hp => by simp [hp]) (by simp +contextual)
    exact hparameter.bind fun a s₃ h => .pure h

theorem finds_arrowFunction : Finds ([·]) .arrow (arrowFunction parse) := by
  intro Γ d T known s hs
  refine .position fun start =>
    (Safe.accept hs (by decide)).bind fun isAsync s₁ ⟨T₁, hasync, hs₁⟩ => ?_
  refine (finds_arrowParameters hparse hs₁).bind fun parameters s₂ ⟨ps, T₂, hs₂, hp⟩ => ?_
  refine (Safe.expect hs₂ (by decide)).bind ?_
  rintro _ s₃ ⟨a, T₃, rfl, ha, hs₃⟩
  have hbody : ∀ s', At (.ofFunction isAsync false) d T₃ ((parameters, ps) :: known) s' → Safe (do
      if ← isAt .openBrace then block parse else parse .assignment) s'
        (Found Option.toList (.ofFunction isAsync false) d ((parameters, ps) :: known)
          (Derives .arrowBody (.ofFunction isAsync false) d T₃)) := by
    intro s' hs'
    refine .tells (hs'.run_isAt _) (.ite (fun _ => ?_) fun hk => ?_)
    · refine (finds_block hparse hs').mono fun r s'' ⟨ts, T', hs'', h⟩ => ?_
      obtain ⟨b, rfl⟩ := h.single rfl
      exact ⟨_, T', hs'', .arrowBlock h⟩
    · refine (hparse .assignment hs').mono fun r s'' ⟨ts, T', hs'', h⟩ => ?_
      obtain ⟨b, rfl⟩ := h.single rfl
      exact ⟨_, T', hs'', .arrowExpression (by simpa using hk) h⟩
  refine (Safe.withContext hs₃ hbody).bind fun body s₄ ⟨bs, T₄, hs₄, hb⟩ => ?_
  obtain ⟨b, rfl⟩ := hb.single rfl
  exact .finish hs₄ (.arrow hasync hp ha hb) (fun _ hp => by simp [hp]) (by simp +contextual)

end Rules

end FunctionNaming.Grammar
