import FunctionNaming.Proofs.Grammar.Reads.Function

/-!
Completeness of the grammar for the members of object literals and of classes.
-/

namespace FunctionNaming.Grammar

open SyntaxTree (node)

section Rules

variable {parse : Rule → Parser Slot} {n : Nat} (hparse : ReadsRules n parse)
  {Γ : Context} {d : Nat} {T T' rest : List Token} {known : Known} {s : State}

/-! ### Modifiers -/

theorem Ready.exists_run_modifiers (hs : Ready Γ d T known s) {isStatic : Bool} {m : Modifiers}
    (h : passModifiers isStatic T = (m, T')) :
    ∃ s', (modifiers isStatic).run s = (m, s') ∧ Ready Γ d T' known s' := by
  obtain ⟨s', hrun, hmoves⟩ := Grammar.exists_run_modifiers hs.ended_upcoming isStatic
  have hended := ended_of_run hs.ended_upcoming hrun
  rw [hmoves.upcoming, hs.upcoming, h] at hended
  rw [hs.upcoming, h] at hrun hmoves
  exact ⟨s', hrun, hs.moves hmoves hended⟩

theorem Ready.exists_run_staticModifier (hs : Ready Γ d T known s) {isStatic : Bool}
    (h : passStatic T = (isStatic, T')) :
    ∃ s', staticModifier.run s = (isStatic, s') ∧ Ready Γ d T' known s' := by
  obtain ⟨s', hrun, hmoves⟩ := Grammar.exists_run_staticModifier hs.ended_upcoming
  have hended := ended_of_run hs.ended_upcoming hrun
  rw [hmoves.upcoming, hs.upcoming, h] at hended
  rw [hs.upcoming, h] at hrun hmoves
  exact ⟨s', hrun, hs.moves hmoves hended⟩

include hparse

theorem readsAll_spread : ReadsAll ([·]) (n + 1) .spread (spread parse) := by
  intro Γ d T ts rest known s h hn hs
  cases h with
  | spread ht he =>
    refine .position fun start => (Leads.expect hs ht (by decide)).bind fun _ s₁ hs₁ => ?_
    refine (hparse.past .assignment he hn (Nat.lt_succ_self _) hs₁).bind fun e s₂ hs₂ => ?_
    exact .finish hs₂ (fun _ hp => by simp [hp]) (by simp +contextual)

/-! ### What follows a name -/

section Rest

variable {c : Category} {start : Nat} {name : NodeId} {x b : SyntaxTree} {ps : List SyntaxTree}
  {known' : Known} (hn : c.reach T < n + 1) (hlength : T'.length < T.length)
  (hknown : known' ⊆ known) (hs : Ready Γ d T' (([name], [x]) :: known) s)

include hn hlength hknown hs

theorem leads_methodRest {m : Modifiers}
    (h : Derives (.signature m.isAsync m.isGenerator) Γ d T' (ps ++ [b]) rest) :
    Leads (methodRest parse start m name) s (Has ([·]) Γ d known'
      [node (.method m.isStatic m.isAsync m.isGenerator (some x) ps (some b))] rest) := by
  refine (leads_signatureAndBody hparse h hn hlength hs).bind fun r s₁ hs₁ => ?_
  exact .finish hs₁ (by intro p hp; simp [hknown hp]) (by simp +contextual)

theorem leads_accessorRest {role : AccessorRole} {isStatic : Bool}
    (h : Derives (.signature false false) Γ d T' (ps ++ [b]) rest) :
    Leads (accessorRest parse start role isStatic name) s (Has ([·]) Γ d known'
      [node (.accessor role isStatic (some x) ps (some b))] rest) := by
  refine (leads_signatureAndBody hparse h hn hlength hs).bind fun r s₁ hs₁ => ?_
  exact .finish hs₁ (by intro p hp; simp [hknown hp]) (by simp +contextual)

end Rest

/-! ### Object literals -/

/-- What a member of an object literal has in front of its name is no ellipsis. -/
theorem leads_objectMember {m : Modifiers} {x : SyntaxTree} {T₁ T₂ : List Token}
    {ts : List SyntaxTree} (hpass : passModifiers false T = (m, T₁))
    (hx : Derives .memberName Γ d T₁ [x] T₂) (hn : Category.objectMember.reach T < n + 1)
    (hs : Ready Γ d T known s)
    (hrest : ∀ start name s, T₂.length < T.length →
      Ready Γ d T₂ (([name], [x]) :: known) s → Leads (do
        if let some role := m.accessor then
          return some (← accessorRest parse start role false name)
        if m.isAsync || m.isGenerator || (← isAt .openParen) then
          return some (← methodRest parse start m name)
        if ← accept .colon then
          let value ← parse .assignment
          return some (← finish start (.propertyAssignment (some name) value))
        unless Γ.binds (kindOf T₁) do expect .colon
        return some (← finish start (.shorthandProperty (some name)))) s
          (Has Option.toList Γ d known ts rest)) :
    Leads (objectMember parse) s (Has Option.toList Γ d known ts rest) := by
  have hmember : (kindOf T).startsMember = true :=
    startsMember_of_passModifiers hpass (Bool.and_eq_true_iff.1 (hx.first rfl)).2
  have hk : ¬(kindOf T == .ellipsis) = true := by
    intro hk
    rw [eq_of_beq hk] at hmember
    cases hmember
  have hlength := (isSuffix_passModifiers hpass).length_le
  obtain ⟨s₁, hrun, hs₁⟩ := hs.exists_run_modifiers hpass
  refine .runs (hs.run_isAt _) (.else_ hk (.position fun start => .runs hrun ?_))
  refine .runs hs₁.run_isIdentifier ?_
  refine (readsAll_memberName hparse hx (Category.reach_lt_of_rank hn hlength le_rfl) hs₁).bind
    fun a s₂ hs₂ => ?_
  obtain ⟨name, rfl⟩ := hs₂.exists_eq_some
  exact hrest start name s₂ (Nat.lt_of_lt_of_le (hx.length_lt rfl) hlength) hs₂

theorem readsAll_objectMember :
    ReadsAll Option.toList (n + 1) .objectMember (objectMember parse) := by
  intro Γ d T ts rest known s h hn hs
  cases h with
  | spreadMember he =>
    refine .runs (hs.run_isAt _) (.then_ (he.first rfl) ?_)
    exact (readsAll_spread hparse he (Category.reach_lt_of_rank hn le_rfl le_rfl) hs).bind
      fun a s₁ hs₁ => .pure hs₁
  | accessorMember hpass hx hsignature =>
    refine leads_objectMember hparse hpass hx hn hs fun start name s hlength hs => ?_
    exact (leads_accessorRest hparse hn hlength (List.Subset.refl _) hs hsignature).some
  | methodMember hpass hx hmethod hsignature =>
    refine leads_objectMember hparse hpass hx hn hs fun start name s hlength hs => ?_
    refine .runs (hs.run_isAt _) (.then_ hmethod ?_)
    exact (leads_methodRest hparse hn hlength (List.Subset.refl _) hs hsignature).some
  | valueMember hpass hx hc hv =>
    refine leads_objectMember hparse hpass hx hn hs fun start name s hlength hs => ?_
    refine .runs (hs.run_isAt _) (.else_ (by simp [hc]) ?_)
    refine (Leads.accept hs (.passed hc) (by decide)).bind ?_
    rintro _ s₁ ⟨rfl, hs₁⟩
    refine (hparse.past .assignment hv hn (Nat.lt_of_succ_lt hlength) hs₁).bind
      fun value s₂ hs₂ => ?_
    exact Leads.some (.finish hs₂ (fun _ hp => by simp [hp]) (by simp +contextual))
  | shorthandMember hpass hbinds hx hparen hcolon =>
    refine leads_objectMember hparse hpass hx hn hs fun start name s hlength hs => ?_
    refine .runs (hs.run_isAt _) (.else_ (by simp [hparen]) ?_)
    refine (Leads.accept hs (.absent hcolon) (by decide)).bind ?_
    rintro _ s₁ ⟨rfl, hs₁⟩
    simp only [hbinds, Bool.false_eq_true, if_false, if_true]
    exact Leads.some (.finish hs₁ (fun _ hp => by simp [hp]) (by simp +contextual))

theorem readsAll_objectLiteral : ReadsAll ([·]) (n + 1) .objectLiteral (objectLiteral parse) := by
  intro Γ d T ts rest known s h hn hs
  cases h with
  | objectLiteral ht he hc =>
    refine .position fun start => (Leads.expect hs ht (by decide)).bind fun _ s₁ hs₁ => ?_
    refine (readsAll_commaList (readsAll_objectMember hparse) rfl rfl he
      (Category.reach_lt hn (Nat.lt_succ_self _)) hs₁).bind fun members s₂ hs₂ => ?_
    refine (Leads.expect hs₂ hc (by decide)).bind fun _ s₃ hs₃ => ?_
    exact .finish hs₃ (fun _ hp => by simp [hp]) (by simp +contextual)

/-! ### Classes -/

/-- The rest of a class member is read behind its name. -/
theorem leads_classMember {isStatic : Bool} {m : Modifiers} {x : SyntaxTree} {T₀ T₁ T₂ : List Token}
    {ts : List SyntaxTree} (hstatic : passStatic T = (isStatic, T₀))
    (hpass : passModifiers isStatic T₀ = (m, T₁)) (hx : Derives .memberName Γ d T₁ [x] T₂)
    (hn : Category.classMember.reach T < n + 1) (hs : Ready Γ d T known s)
    (hrest : ∀ start name s, T₂.length < T.length →
      Ready Γ d T₂ (([name], [x]) :: known) s → Leads (do
        if let some role := m.accessor then
          return some (← accessorRest parse start role m.isStatic name)
        if ← isAt .openParen then
          if !m.isStatic && !m.isAsync && !m.isGenerator && (← isConstructorName name) then
            let (parameters, body) ← signatureAndBody parse false false
            return some (← finish start (.classConstructor parameters body))
          return some (← methodRest parse start m name)
        if m.isAsync || m.isGenerator then
          return some (← methodRest parse start m name)
        let value ← initializer parse
        semicolon
        return some (← finish start (.classField m.isStatic (some name) value))) s
          (Has Option.toList Γ d known ts rest)) :
    Leads (classMember parse) s (Has Option.toList Γ d known ts rest) := by
  obtain ⟨s₀, hrun₀, hs₀⟩ := hs.exists_run_staticModifier hstatic
  obtain ⟨s₁, hrun, hs₁⟩ := hs₀.exists_run_modifiers hpass
  have hlength := ((isSuffix_passModifiers hpass).trans (isSuffix_passStatic hstatic)).length_le
  refine .position fun start => .runs hrun₀ (.runs hrun ?_)
  refine (readsAll_memberName hparse hx (Category.reach_lt_of_rank hn hlength le_rfl) hs₁).bind
    fun a s₂ hs₂ => ?_
  obtain ⟨name, rfl⟩ := hs₂.exists_eq_some
  exact hrest start name s₂ (Nat.lt_of_lt_of_le (hx.length_lt rfl) hlength) hs₂

theorem readsAll_classMember : ReadsAll Option.toList (n + 1) .classMember (classMember parse) := by
  intro Γ d T ts rest known s h hn hs
  cases h with
  | classAccessor hstatic hpass hx hsignature =>
    refine leads_classMember hparse hstatic hpass hx hn hs fun start name s hlength hs => ?_
    exact (leads_accessorRest hparse hn hlength (List.Subset.refl _) hs hsignature).some
  | classConstructor hstatic hpass hx hconstructor hparen hsignature =>
    refine leads_classMember hparse hstatic hpass hx hn hs fun start name s hlength hs => ?_
    refine .runs (hs.run_isAt _) (.then_ (by simp [hparen]) ?_)
    refine .runs hs.run_isConstructorName (.then_ (by simp [hconstructor]) ?_)
    refine (leads_signatureAndBody hparse hsignature hn hlength hs).bind fun r s₁ hs₁ => ?_
    exact Leads.some (.finish hs₁ (fun _ hp => by simp [hp]) (by simp +contextual))
  | classMethod hstatic hpass hx hmethod hname hsignature =>
    refine leads_classMember hparse hstatic hpass hx hn hs fun start name s hlength hs => ?_
    refine .runs (hs.run_isAt _) ?_
    split
    · refine .runs hs.run_isConstructorName (.else_ ?_ (Leads.some
        (leads_methodRest hparse hn hlength (List.Subset.refl _) hs hsignature)))
      simp only [Bool.or_eq_true, Bool.not_eq_true'] at hname
      rcases hname with ((hname | hname) | hname) | hname <;> simp [hname]
    · next hparen =>
      exact .then_ (by simpa [hparen] using hmethod) (Leads.some
        (leads_methodRest hparse hn hlength (List.Subset.refl _) hs hsignature))
  | classField hstatic hpass hx hparen hv hend =>
    refine leads_classMember hparse hstatic hpass hx hn hs fun start name s hlength hs => ?_
    refine .runs (hs.run_isAt _) (.else_ (by simpa using hparen) ?_)
    refine (readsAll_initializer hparse hv (Category.reach_lt hn hlength) hs).bind
      fun value s₁ hs₁ => (Leads.semicolon hs₁ hend).bind fun _ s₂ hs₂ => ?_
    exact Leads.some (.finish hs₂ (fun _ hp => by simp [hp]) (by simp +contextual))

theorem readsAll_classMembers : ReadsAll id (n + 1) .classMembers (classMembers parse) := by
  intro Γ d T ts rest known s h hn hs
  refine .collect (L := fun T ts => Derives .classMembers Γ d T ts rest ∧
    Category.classMember.reach T < n + 1) hs ⟨h, hn⟩ fun T ts known s ⟨h, hn⟩ hs => ?_
  refine .runs (hs.run_isAtOrEnd _) ?_
  cases h with
  | classMembersEnd hend =>
    exact .then_ (by simpa using hend) (.pure (.inl ⟨rfl, hs.learn (Forest.reads_nil _)⟩))
  | classMembersSkip ht hrest =>
    refine .else_ (by simp [ht]) ((Leads.accept hs (.passed ht) (by decide)).bind ?_)
    rintro _ s₁ ⟨rfl, hs₁⟩
    exact .pure (.inr ⟨rfl, [], _, _, rfl, Nat.lt_succ_self _,
      ⟨hrest, Category.reach_lt hn (Nat.lt_succ_self _)⟩, hs₁.learn (Forest.reads_nil _)⟩)
  | classMembersMore hx hrest =>
    have hmember : (kindOf T).startsMember = true := hx.first rfl
    have hk : ¬(kindOf T == .closeBrace || kindOf T == .endOfFile) = true ∧
        kindOf T ≠ .semicolon := by
      generalize kindOf T = k at hmember
      cases k <;> first | decide | cases hmember
    refine .else_ hk.1 ((Leads.accept hs (.absent hk.2) (by decide)).bind ?_)
    rintro _ s₁ ⟨rfl, hs₁⟩
    refine .runs (a := s₁.cursor) rfl ((readsAll_classMember hparse hx hn hs₁).keeps.bind ?_)
    rintro a s₂ ⟨hs₂, hkeeps⟩
    have hmoved : s₂.cursor ≠ s₁.cursor := by
      have hcursor := hkeeps.cursor
      have hlength := hx.length_lt rfl
      rw [hs₁.upcoming, hs₂.upcoming] at hcursor
      omega
    refine .runs (a := s₂.cursor) rfl (.else_ (by simpa using hmoved) (.pure ?_))
    exact .inr ⟨rfl, [_], _, _, rfl, hx.length_lt rfl,
      ⟨hrest, Category.reach_lt hn (hx.length_lt rfl)⟩, hs₂⟩

theorem readsAll_heritage : ReadsAll Option.toList (n + 1) .heritage (heritage parse) := by
  intro Γ d T ts rest known s h hn hs
  cases h with
  | noHeritage hk =>
    refine (Leads.accept hs (.absent hk) (by decide)).bind ?_
    rintro _ s₁ ⟨rfl, hs₁⟩
    exact .pure (hs₁.learn (Forest.reads_nil _))
  | heritage ht he =>
    refine (Leads.accept hs (.passed ht) (by decide)).bind ?_
    rintro _ s₁ ⟨rfl, hs₁⟩
    exact hparse.past .leftHandSide he hn (Nat.lt_succ_self _) hs₁

theorem readsAll_classLike (role : ClassRole) (nameRequired : Bool) :
    ReadsAll ([·]) (n + 1) (.classLike role nameRequired) (classLike parse role nameRequired) := by
  intro Γ d T ts rest known s h hn hs
  cases h with
  | classLike ht hx hh ho hm hc =>
    have hlength₁ := hx.length_le
    have hlength₂ := hh.length_le
    simp only [List.length_cons] at hlength₂
    refine .position fun start => (Leads.expect hs ht (by decide)).bind fun _ s₁ hs₁ => ?_
    refine (readsAll_declaredName nameRequired hx
      (Category.reach_lt hn (Nat.lt_succ_self _)) hs₁).bind fun name s₂ hs₂ => ?_
    refine (readsAll_heritage hparse hh (Category.reach_lt hn (by grind)) hs₂).bind
      fun extended s₃ hs₃ => (Leads.expect hs₃ ho (by decide)).bind fun _ s₄ hs₄ => ?_
    refine (readsAll_classMembers hparse hm (Category.reach_lt hn (by grind)) hs₄).bind
      fun members s₅ hs₅ => (Leads.expect hs₅ hc (by decide)).bind fun _ s₆ hs₆ => ?_
    exact .finish hs₆ (fun _ hp => by simp [hp]) (by simp +contextual)

end Rules

end FunctionNaming.Grammar
