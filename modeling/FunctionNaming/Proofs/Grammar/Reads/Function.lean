import FunctionNaming.Proofs.Grammar.Reads.Binding

/-!
Completeness of the grammar for functions: where a function is derived, it is read.
-/

namespace FunctionNaming.Grammar

open SyntaxTree (node)

section Rules

variable {parse : Rule → Parser Slot} {n : Nat} (hparse : ReadsRules n parse)
  {Γ : Context} {d : Nat} {T T' rest : List Token} {known : Known} {s : State}

include hparse

/-! ### Blocks -/

/-- A statement in a list moves past a token, so no token is skipped. -/
theorem leads_listedStatement {x : SyntaxTree} (h : Derives .statement Γ d T [x] rest)
    (hn : Category.statement.reach T < n) (hs : Ready Γ d T known s) :
    Leads (listedStatement parse) s (Has Option.toList Γ d known [x] rest) := by
  refine .runs (a := s.cursor) rfl ((hparse .statement h hn hs).keeps.bind ?_)
  rintro a s₁ ⟨hs₁, hkeeps⟩
  have hmoved : s₁.cursor ≠ s.cursor := by
    have hcursor := hkeeps.cursor
    have hlength := h.length_lt rfl
    rw [hs.upcoming, hs₁.upcoming] at hcursor
    omega
  refine .runs (a := s₁.cursor) rfl (.runs (a := (kind.run s₁).1) rfl (.else_ ?_ hs₁))
  simp [hmoved]

theorem readsAll_statementList : ReadsAll id (n + 1) .statements (statementList parse) := by
  intro Γ d T ts rest known s h hn hs
  refine .collect (L := fun T ts => Derives .statements Γ d T ts rest ∧
    Category.statement.reach T < n) hs ⟨h, ?_⟩ fun T ts known s ⟨h, hn⟩ hs => ?_
  · exact Nat.lt_of_succ_lt_succ hn
  refine .runs (hs.run_isAtOrEnd _) ?_
  cases h with
  | statementsEnd hend =>
    exact .then_ (by simpa using hend) (.pure (.inl ⟨rfl, hs.learn (Forest.reads_nil _)⟩))
  | statementsMore hx hrest =>
    have hk : ¬(kindOf T == .closeBrace || kindOf T == .endOfFile) = true := by
      simpa [Category.first] using hx.first rfl
    refine .else_ hk ((leads_listedStatement hparse hx hn hs).bind fun a s₁ hs₁ => .pure ?_)
    exact .inr ⟨rfl, [_], _, _, rfl, hx.length_lt rfl,
      ⟨hrest, Category.reach_lt hn (hx.length_lt rfl)⟩, hs₁⟩

theorem readsAll_block : ReadsAll Option.toList (n + 1) .block (block parse) := by
  intro Γ d T ts rest known s h hn hs
  cases h with
  | block hd ht hx hc =>
    refine .nested hs hd fun s hs => .position fun start =>
      (Leads.expect hs ht (by decide)).bind fun _ s₁ hs₁ => ?_
    refine (readsAll_statementList hparse hx (Category.reach_lt hn (Nat.lt_succ_self _)) hs₁).bind
      fun statements s₂ hs₂ => (Leads.expect hs₂ hc (by decide)).bind fun _ s₃ hs₃ => ?_
    exact .map (.finish hs₃ (fun _ hp => by simp [hp]) (by simp +contextual))

/-! ### Functions -/

theorem readsAll_parameterList :
    ReadsAll id (n + 1) (.list false .closeParen .parameter) (parameterList parse) :=
  readsAll_commaList (readsAll_parameter hparse).some rfl rfl

omit hparse in
/-- The last tree of a signature is that of its block. -/
theorem Derives.exists_of_signature {isAsync isGenerator : Bool} {ps : List SyntaxTree}
    {b : SyntaxTree} (h : Derives (.signature isAsync isGenerator) Γ d T (ps ++ [b]) rest) :
    ∃ t T₁ c T₂, T = t :: T₁ ∧ t.kind = .openParen ∧
      Derives (.list false .closeParen .parameter) (.ofFunction isAsync isGenerator) d T₁ ps
        (c :: T₂) ∧ c.kind = .closeParen ∧
      Derives .block (.ofFunction isAsync isGenerator) d T₂ [b] rest := by
  generalize hts : ps ++ [b] = ts at h
  cases h with
  | signature ht hp hc hb =>
    obtain ⟨rfl, hbody⟩ := List.append_inj' hts rfl
    exact ⟨_, _, _, _, rfl, ht, hp, hc, hbody ▸ hb⟩

theorem leads_signatureAndBody {isAsync isGenerator : Bool} {ps : List SyntaxTree} {b : SyntaxTree}
    {c : Category} (h : Derives (.signature isAsync isGenerator) Γ d T' (ps ++ [b]) rest)
    (hn : c.reach T < n + 1) (hlength : T'.length < T.length) (hs : Ready Γ d T' known s) :
    Leads (signatureAndBody parse isAsync isGenerator) s fun r s' =>
      Ready Γ d rest ((r.2.toList, [b]) :: (r.1, ps) :: known) s' := by
  obtain ⟨t, T₁, c, T₂, rfl, ht, hp, hc, hb⟩ := h.exists_of_signature
  have hlength₂ := hp.length_le
  simp only [List.length_cons] at hlength hlength₂
  have hinner : ∀ s', Ready (.ofFunction isAsync isGenerator) d (t :: T₁) known s' → Leads (do
      expect .openParen
      let parameters ← parameterList parse
      expect .closeParen
      let body ← block parse
      return (parameters, body)) s' fun r s' => Ready (.ofFunction isAsync isGenerator) d rest
        ((r.2.toList, [b]) :: (r.1, ps) :: known) s' := by
    intro s hs
    refine (Leads.expect hs ht (by decide)).bind fun _ s₁ hs₁ => ?_
    refine (readsAll_parameterList hparse hp (Category.reach_lt hn (by omega)) hs₁).bind
      fun parameters s₂ hs₂ => (Leads.expect hs₂ hc (by decide)).bind fun _ s₃ hs₃ => ?_
    exact (readsAll_block hparse hb (Category.reach_lt hn (by omega)) hs₃).bind
      fun body s₄ hs₄ => .pure hs₄
  refine (Leads.inContext hs hinner).mono ?_
  rintro r s' ⟨s'', hs'', rfl⟩
  exact hs''.inContext Γ

theorem readsAll_functionDeclaration (nameRequired : Bool) :
    ReadsAll ([·]) (n + 1) (.function .declaration nameRequired)
      (functionDeclaration parse nameRequired) := by
  intro Γ d T ts rest known s h hn hs
  cases h with
  | function hasync ht hstar hx hsignature =>
    have hlength := hasync.isSuffix.length_le
    have hlength₂ := hstar.isSuffix.length_le
    have hlength₃ := hx.length_le
    simp only [List.length_cons] at hlength
    refine .position fun start => (Leads.accept hs hasync (by decide)).bind ?_
    rintro _ s₁ ⟨rfl, hs₁⟩
    refine (Leads.expect hs₁ ht (by decide)).bind fun _ s₂ hs₂ =>
      (Leads.accept hs₂ hstar (by decide)).bind ?_
    rintro _ s₃ ⟨rfl, hs₃⟩
    refine (readsAll_declaredName nameRequired hx (Category.reach_lt hn (by omega)) hs₃).bind
      fun name s₄ hs₄ => ?_
    refine (leads_signatureAndBody hparse hsignature hn (by omega) hs₄).bind fun r s₅ hs₅ => ?_
    exact .finish hs₅ (fun _ hp => by simp [hp]) (by simp +contextual)

theorem readsAll_functionExpression :
    ReadsAll ([·]) (n + 1) (.function .expression false) (functionExpression parse) := by
  intro Γ d T ts rest known s h hn hs
  cases h with
  | function hasync ht hstar hx hsignature =>
    have hlength := hasync.isSuffix.length_le
    have hlength₂ := hstar.isSuffix.length_le
    have hlength₃ := hx.length_le
    simp only [List.length_cons] at hlength
    refine .position fun start => (Leads.accept hs hasync (by decide)).bind ?_
    rintro _ s₁ ⟨rfl, hs₁⟩
    refine (Leads.expect hs₁ ht (by decide)).bind fun _ s₂ hs₂ =>
      (Leads.accept hs₂ hstar (by decide)).bind ?_
    rintro _ s₃ ⟨rfl, hs₃⟩
    refine (Leads.withContext hs₃ fun s' hs' =>
      readsAll_declaredName false hx (Category.reach_lt hn (by omega)) hs').bind
        fun name s₄ hs₄ => ?_
    refine (leads_signatureAndBody hparse hsignature hn (by omega) hs₄).bind fun r s₅ hs₅ => ?_
    exact .finish hs₅ (fun _ hp => by simp [hp]) (by simp +contextual)

theorem readsAll_arrowParameters :
    ReadsAll id (n + 1) .arrowParameters (arrowParameters parse) := by
  intro Γ d T ts rest known s h hn hs
  cases h with
  | groupParameters ht hp hc =>
    refine (Leads.accept hs (.passed ht) (by decide)).bind ?_
    rintro _ s₁ ⟨rfl, hs₁⟩
    refine (readsAll_parameterList hparse hp (Category.reach_lt hn (Nat.lt_succ_self _)) hs₁).bind
      fun parameters s₂ hs₂ => (Leads.expect hs₂ hc (by decide)).bind fun _ s₃ hs₃ => ?_
    exact .pure hs₃
  | nameParameter hx =>
    have hk : kindOf T ≠ .openParen := by
      intro hk
      have hfirst := hx.first rfl
      rw [hk] at hfirst
      cases hfirst
    refine (Leads.accept hs (.absent hk) (by decide)).bind ?_
    rintro _ s₁ ⟨rfl, hs₁⟩
    refine .position fun start =>
      (readsAll_identifier hx (Category.reach_lt_of_rank hn le_rfl le_rfl) hs₁).bind
        fun name s₂ hs₂ => ?_
    exact Leads.bind (Q := Has ([·]) Γ d known _ rest)
      (.finish hs₂ (fun _ hp => by simp [hp]) (by simp +contextual)) fun a s₃ hs₃ => .pure hs₃

theorem readsAll_arrowBody : ReadsAll Option.toList (n + 1) .arrowBody
    (do if ← isAt .openBrace then block parse else parse .assignment) := by
  intro Γ d T ts rest known s h hn hs
  refine .runs (hs.run_isAt _) ?_
  cases h with
  | arrowBlock hb =>
    refine .then_ (hb.first rfl) (readsAll_block hparse hb ?_ hs)
    exact Category.reach_lt_of_rank hn le_rfl (Nat.zero_le _)
  | arrowExpression hk hb =>
    refine .else_ (by simpa using hk) ?_
    exact hparse.tighter .assignment hb hn le_rfl (by decide) hs

theorem readsAll_arrowFunction : ReadsAll ([·]) (n + 1) .arrow (arrowFunction parse) := by
  intro Γ d T ts rest known s h hn hs
  cases h with
  | arrow hasync hp ha hb =>
    have hlength := hasync.isSuffix.length_le
    have hlength₂ := hp.length_le
    simp only [List.length_cons] at hlength₂
    refine .position fun start => (Leads.accept hs hasync (by decide)).bind ?_
    rintro _ s₁ ⟨rfl, hs₁⟩
    refine (readsAll_arrowParameters hparse hp
      (Category.reach_lt_of_rank hn hlength le_rfl) hs₁).bind fun parameters s₂ hs₂ =>
      (Leads.expect hs₂ ha (by decide)).bind fun _ s₃ hs₃ => ?_
    refine (Leads.withContext hs₃ fun s' hs' =>
      readsAll_arrowBody hparse hb (Category.reach_lt hn (by omega)) hs').bind fun body s₄ hs₄ => ?_
    exact .finish hs₄ (fun _ hp => by simp [hp]) (by simp +contextual)

end Rules

end FunctionNaming.Grammar
