import FunctionNaming.Proofs.Grammar.Sound.Function

/-!
Soundness of the grammar for the members of object literals and of classes.
-/

namespace FunctionNaming.Grammar

open SyntaxTree (node)

/-- The modifiers of an accessor are its role and perhaps `static`. -/
theorem passModifiers_cases (isStatic : Bool) (T : List Token) :
    (∃ role T', passModifiers isStatic T = (⟨isStatic, false, false, some role⟩, T')) ∨
    ∃ isAsync isGenerator T',
      passModifiers isStatic T = (⟨isStatic, isAsync, isGenerator, none⟩, T') := by
  rw [passModifiers]
  split
  · exact .inl ⟨_, _, rfl⟩
  · split
    · exact .inl ⟨_, _, rfl⟩
    · exact .inr ⟨_, _, _, rfl⟩

section Rules

variable {parse : Rule → Parser Slot} (hparse : FindsRules parse) {Γ : Context} {d : Nat}
  {T : List Token} {known : Known} {s : State}

/-- The modifiers that are passed, and where the parser stands then. -/
theorem At.exists_run_modifiers (hs : At Γ d T known s) (isStatic : Bool) :
    ∃ s', (modifiers isStatic).run s = ((passModifiers isStatic T).1, s') ∧
      At Γ d (passModifiers isStatic T).2 known s' := by
  obtain ⟨s', hrun, hmoves⟩ := Grammar.exists_run_modifiers hs.ended_upcoming isStatic
  have hended := ended_of_run hs.ended_upcoming hrun
  rw [hmoves.upcoming, hs.upcoming] at hended
  rw [hs.upcoming] at hrun hmoves
  exact ⟨s', hrun, hs.moves hmoves hended⟩

theorem At.exists_run_staticModifier (hs : At Γ d T known s) :
    ∃ s', staticModifier.run s = ((passStatic T).1, s') ∧ At Γ d (passStatic T).2 known s' := by
  obtain ⟨s', hrun, hmoves⟩ := Grammar.exists_run_staticModifier hs.ended_upcoming
  have hended := ended_of_run hs.ended_upcoming hrun
  rw [hmoves.upcoming, hs.upcoming] at hended
  rw [hs.upcoming] at hrun hmoves
  exact ⟨s', hrun, hs.moves hmoves hended⟩

include hparse

theorem finds_spread : Finds ([·]) .spread (spread parse) := by
  intro Γ d T known s hs
  refine .position fun start => (Safe.expect hs (by decide)).bind ?_
  rintro _ s₁ ⟨t, T₁, rfl, ht, hs₁⟩
  refine (hparse .assignment hs₁).bind fun e s₂ ⟨es, T₂, hs₂, he⟩ => ?_
  obtain ⟨e', rfl⟩ := he.single rfl
  exact .finish hs₂ (.spread ht he) (fun _ hp => by simp [hp]) (by simp +contextual)

/-! ### What follows a name -/

/-- A method, of which the name `n` has been read before the tokens `T`. -/
theorem safe_methodRest {start : Nat} {m : Modifiers} {name : NodeId} {n : SyntaxTree}
    {known' : Known} {F : List SyntaxTree → List Token → Prop}
    (hs : At Γ d T (([name], [n]) :: known) s) (hknown : known' ⊆ known)
    (hF : ∀ ps b rest, Derives (.signature m.isAsync m.isGenerator) Γ d T (ps ++ [b]) rest →
      F [node (.method m.isStatic m.isAsync m.isGenerator (some n) ps (some b))] rest) :
    Safe (methodRest parse start m name) s (Found ([·]) Γ d known' F) := by
  refine (safe_signatureAndBody hparse m.isAsync m.isGenerator hs).bind ?_
  rintro ⟨parameters, body⟩ s₁ ⟨ps, b, T₁, hs₁, hsignature⟩
  exact .finish hs₁ (hF ps b T₁ hsignature) (by intro p hp; simp [hknown hp]) (by simp +contextual)

theorem safe_accessorRest {start : Nat} {role : AccessorRole} {isStatic : Bool} {name : NodeId}
    {n : SyntaxTree} {known' : Known} {F : List SyntaxTree → List Token → Prop}
    (hs : At Γ d T (([name], [n]) :: known) s) (hknown : known' ⊆ known)
    (hF : ∀ ps b rest, Derives (.signature false false) Γ d T (ps ++ [b]) rest →
      F [node (.accessor role isStatic (some n) ps (some b))] rest) :
    Safe (accessorRest parse start role isStatic name) s (Found ([·]) Γ d known' F) := by
  refine (safe_signatureAndBody hparse false false hs).bind ?_
  rintro ⟨parameters, body⟩ s₁ ⟨ps, b, T₁, hs₁, hsignature⟩
  exact .finish hs₁ (hF ps b T₁ hsignature) (by intro p hp; simp [hknown hp]) (by simp +contextual)

/-! ### Object literals -/

theorem finds_objectMember : Finds Option.toList .objectMember (objectMember parse) := by
  intro Γ d T known s hs
  refine .tells (hs.run_isAt _) (.ite (fun _ => ?_) fun _ => ?_)
  · refine (finds_spread hparse hs).bind fun a s₁ ⟨ts, T₁, hs₁, h⟩ => ?_
    obtain ⟨e, rfl⟩ := h.single rfl
    exact .pure ⟨_, T₁, hs₁, .spreadMember h⟩
  obtain ⟨s₁, hrun, hs₁⟩ := hs.exists_run_modifiers false
  refine .position fun start => .runs hrun (.tells hs₁.run_isIdentifier ?_)
  refine (finds_memberName hparse hs₁).bind fun a s₂ ⟨ns, T₂, hs₂, hn⟩ => ?_
  obtain ⟨n, rfl⟩ := hn.single rfl
  obtain ⟨name, rfl⟩ := hs₂.exists_eq_some
  rcases passModifiers_cases false T with ⟨role, T₁, hpass⟩ | ⟨isAsync, isGenerator, T₁, hpass⟩
  · simp only [hpass] at hn ⊢
    exact (safe_accessorRest hparse hs₂ (List.Subset.refl _) fun ps b rest h =>
      .accessorMember hpass hn h).some
  · simp only [hpass] at hn ⊢
    refine .tells (hs₂.run_isAt _) (.ite (fun hmethod => ?_) fun hmethod => ?_)
    · exact (safe_methodRest hparse hs₂ (List.Subset.refl _) fun ps b rest h =>
        .methodMember hpass hn hmethod h).some
    obtain ⟨rfl, rfl, hparen⟩ : isAsync = false ∧ isGenerator = false ∧ kindOf T₂ ≠ .openParen := by
      simpa [and_assoc] using hmethod
    refine (Safe.accept hs₂ (by decide)).bind fun b s₃ ⟨T₃, haccepts, hs₃⟩ => ?_
    cases b with
    | true =>
      obtain ⟨c, hc, rfl⟩ := haccepts
      refine (hparse .assignment hs₃).bind fun value s₄ ⟨vs, T₄, hs₄, hv⟩ => ?_
      obtain ⟨v, rfl⟩ := hv.single rfl
      exact Safe.some (.finish hs₄ (.valueMember hpass hn hc hv)
        (fun _ hp => by simp [hp]) (by simp +contextual))
    | false =>
      obtain ⟨hcolon, rfl⟩ := haccepts
      by_cases hbinds : Γ.binds (kindOf T₁) = true
      · rw [if_pos hbinds]
        exact Safe.some (.finish hs₃ (.shorthandMember hpass hbinds hn hparen hcolon)
          (fun _ hp => by simp [hp]) (by simp +contextual))
      · rw [if_neg hbinds]
        refine (Safe.expect hs₃ (by decide)).bind ?_
        rintro _ s₄ ⟨c, T₄, rfl, hc, -⟩
        exact absurd hc hcolon

theorem finds_objectLiteral : Finds ([·]) .objectLiteral (objectLiteral parse) := by
  intro Γ d T known s hs
  refine .position fun start => (Safe.expect hs (by decide)).bind ?_
  rintro _ s₁ ⟨t, T₁, rfl, ht, hs₁⟩
  refine (finds_commaList rfl (finds_objectMember hparse) _ hs₁).bind
    fun members s₂ ⟨ms, T₂, hs₂, hm⟩ => (Safe.expect hs₂ (by decide)).bind ?_
  rintro _ s₃ ⟨c, T₃, rfl, hc, hs₃⟩
  exact .finish hs₃ (.objectLiteral ht hm hc) (fun _ hp => by simp [hp]) (by simp +contextual)

/-! ### Classes -/

omit hparse in
/-- Whether a name is that of a constructor is seen from its tree. -/
theorem At.run_isConstructorName {name : NodeId} {n : SyntaxTree}
    (hs : At Γ d T (([name], [n]) :: known) s) :
    (isConstructorName name).run s = (isConstructorTree n, s) := by
  obtain ⟨shape'⟩ := n
  obtain ⟨shape, limit, hshape, hreplace⟩ :=
    Forest.Reads.exists_shape? (hs.reads _ List.mem_cons_self)
  have hrun : (isConstructorName name).run s =
      ((s.forest.shape? name).any ShapeOf.namesConstructor, s) := rfl
  rw [hrun, hshape, isConstructorTree, ShapeOf.namesConstructor_of_replace? hreplace]
  rfl

theorem finds_classMember : Finds Option.toList .classMember (classMember parse) := by
  intro Γ d T known s hs
  obtain ⟨s₀, hstatic, hs₀⟩ := hs.exists_run_staticModifier
  obtain ⟨s₁, hrun, hs₁⟩ := hs₀.exists_run_modifiers (passStatic T).1
  refine .position fun start => .runs hstatic (.runs hrun ?_)
  refine (finds_memberName hparse hs₁).bind fun a s₂ ⟨ns, T₂, hs₂, hn⟩ => ?_
  obtain ⟨n, rfl⟩ := hn.single rfl
  obtain ⟨name, rfl⟩ := hs₂.exists_eq_some
  generalize hpassStatic : passStatic T = r at hrun hn
  obtain ⟨isStatic, T₀⟩ := r
  rcases passModifiers_cases isStatic T₀ with ⟨role, T₁, hpass⟩ | ⟨isAsync, isGenerator, T₁, hpass⟩
  · simp only [hpass] at hn ⊢
    exact (safe_accessorRest hparse hs₂ (List.Subset.refl _) fun ps b rest h =>
      .classAccessor hpassStatic hpass hn h).some
  simp only [hpass] at hn ⊢
  have hmethod : isAsync || isGenerator || kindOf T₂ == .openParen →
      isStatic || isAsync || isGenerator || !isConstructorTree n →
      Safe (do return some (← methodRest parse start ⟨isStatic, isAsync, isGenerator, none⟩ name)) s₂
        (Found Option.toList Γ d known (Derives .classMember Γ d T)) := fun hparen hname =>
    (safe_methodRest hparse hs₂ (List.Subset.refl _) fun ps b rest h =>
      .classMethod hpassStatic hpass hn hparen hname h).some
  refine .tells (hs₂.run_isAt _) (.ite (fun hparen => ?_) fun hparen => ?_)
  · refine .tells hs₂.run_isConstructorName (.ite (fun hname => ?_) fun hname => ?_)
    · obtain ⟨rfl, rfl, rfl, hconstructor⟩ :
          isStatic = false ∧ isAsync = false ∧ isGenerator = false ∧ isConstructorTree n = true := by
        simpa [and_assoc] using hname
      refine (safe_signatureAndBody hparse false false hs₂).bind ?_
      rintro ⟨parameters, body⟩ s₃ ⟨ps, b, T₃, hs₃, hsignature⟩
      have hk : kindOf T₂ = .openParen := by simpa using hparen
      exact Safe.some (.finish hs₃ (.classConstructor hpassStatic hpass hn hconstructor hk hsignature)
        (fun _ hp => by simp [hp]) (by simp +contextual))
    · refine hmethod (by simp [hparen]) ?_
      simp only [Bool.and_eq_true, Bool.not_eq_true', not_and, Bool.not_eq_true] at hname
      cases isStatic <;> cases isAsync <;> cases isGenerator <;> simp_all
  · refine .ite (fun hmodifier => hmethod ?_ ?_) fun hmodifier => ?_
    · simp only [Bool.or_eq_true] at hmodifier ⊢
      exact .inl hmodifier
    · simp only [Bool.or_eq_true] at hmodifier ⊢
      rcases hmodifier with h | h <;> simp [h]
    obtain ⟨rfl, rfl⟩ : isAsync = false ∧ isGenerator = false := by simpa using hmodifier
    refine (finds_initializer hparse hs₂).bind fun value s₃ ⟨v, T₃, hs₃, hv⟩ => ?_
    refine (Safe.semicolon hs₃).bind fun _ s₄ ⟨T₄, hend, hs₄⟩ => ?_
    have hk : kindOf T₂ ≠ .openParen := by simpa using hparen
    exact Safe.some (.finish hs₄ (.classField hpassStatic hpass hn hk hv hend)
      (fun _ hp => by simp [hp]) (by simp +contextual))

theorem finds_classMembers : Finds id .classMembers (classMembers parse) := by
  intro Γ d T known s hs
  refine .collect hs fun T known s hs => ?_
  refine .tells (hs.run_isAtOrEnd _) (.ite (fun hend => ?_) fun _ => ?_)
  · refine .pure ⟨[], T, hs.learn (Forest.reads_nil _), ⟨fun _ => .classMembersEnd ?_, nofun⟩⟩
    simpa using hend
  refine (Safe.accept hs (by decide)).bind fun b s₁ ⟨T₁, haccepts, hs₁⟩ => ?_
  cases b with
  | true =>
    obtain ⟨t, ht, rfl⟩ := haccepts
    exact .pure ⟨[], T₁, hs₁.learn (Forest.reads_nil _), ⟨nofun, fun _ => ⟨Nat.lt_succ_self _,
      fun ts' rest hrest => .classMembersSkip ht hrest⟩⟩⟩
  | false =>
    obtain ⟨-, rfl⟩ := haccepts
    refine .tells (a := s₁.cursor) rfl ((finds_classMember hparse hs₁).keeps.bind ?_)
    rintro a s₂ ⟨⟨ts, T₂, hs₂, h⟩, hkeeps⟩
    obtain ⟨x, rfl⟩ := h.single rfl
    have hlength := h.length_lt rfl
    -- A member has moved past a token, so none is skipped.
    have hmoved : s₂.cursor ≠ s₁.cursor := by
      have hcursor := hkeeps.cursor
      rw [hs₁.upcoming, hs₂.upcoming] at hcursor
      omega
    refine .tells (a := s₂.cursor) rfl (.ite (fun hsame => ?_) fun _ => ?_)
    · exact absurd (by simpa using hsame) hmoved
    · exact .pure ⟨_, T₂, hs₂, ⟨nofun, fun _ => ⟨hlength, fun ts' rest hrest =>
        .classMembersMore h hrest⟩⟩⟩

theorem finds_heritage : Finds Option.toList .heritage (heritage parse) := by
  intro Γ d T known s hs
  refine (Safe.accept hs (by decide)).bind fun b s₁ ⟨T₁, haccepts, hs₁⟩ => ?_
  cases b with
  | true =>
    obtain ⟨t, ht, rfl⟩ := haccepts
    refine (hparse .leftHandSide hs₁).mono fun e s₂ ⟨es, T₂, hs₂, he⟩ => ?_
    obtain ⟨e', rfl⟩ := he.single rfl
    exact ⟨_, T₂, hs₂, .heritage ht he⟩
  | false =>
    obtain ⟨hk, rfl⟩ := haccepts
    exact .pure ⟨[], _, hs₁.learn (Forest.reads_nil _), .noHeritage hk⟩

theorem finds_classLike (role : ClassRole) (nameRequired : Bool) :
    Finds ([·]) (.classLike role nameRequired) (classLike parse role nameRequired) := by
  intro Γ d T known s hs
  refine .position fun start => (Safe.expect hs (by decide)).bind ?_
  rintro _ s₁ ⟨t, T₁, rfl, ht, hs₁⟩
  refine (finds_declaredName nameRequired hs₁).bind fun name s₂ ⟨n, T₂, hs₂, hn⟩ => ?_
  refine (finds_heritage hparse hs₂).bind fun extended s₃ ⟨h, T₃, hs₃, hh⟩ => ?_
  refine (Safe.expect hs₃ (by decide)).bind ?_
  rintro _ s₄ ⟨o, T₄, rfl, ho, hs₄⟩
  refine (finds_classMembers hparse hs₄).bind fun members s₅ ⟨ms, T₅, hs₅, hm⟩ => ?_
  refine (Safe.expect hs₅ (by decide)).bind ?_
  rintro _ s₆ ⟨c, T₆, rfl, hc, hs₆⟩
  exact .finish hs₆ (.classLike ht hn hh ho hm hc) (fun _ hp => by simp [hp]) (by simp +contextual)

end Rules

end FunctionNaming.Grammar
