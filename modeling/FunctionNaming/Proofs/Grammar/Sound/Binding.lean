import FunctionNaming.Proofs.Grammar.Safe

/-!
Soundness of the grammar for names and bindings: what is read without complaints is derived.
-/

namespace FunctionNaming.Grammar

open SyntaxTree (node)

variable {α : Type}

/-- That runs of `p` without complaints find phrases of the category `c`. -/
def Finds (nodes : α → List NodeId) (c : Category) (p : Parser α) : Prop :=
  ∀ ⦃Γ d T known s⦄, At Γ d T known s → Safe p s (Found nodes Γ d known (Derives c Γ d T))

/-- The phrases that a rule stands for. -/
def Rule.category : Rule → Category
  | .statement => .statement
  | .assignment => .assignment
  | .binary above => .binary above
  | .unary => .unary
  | .leftHandSide => .leftHandSide
  | .construction => .construction
  | .bindingName => .bindingName

/-- That the rules of the grammar find phrases if they are followed through by `parse`. -/
def FindsRules (parse : Rule → Parser Slot) : Prop :=
  ∀ rule : Rule, Finds Option.toList rule.category (parse rule)

/-! ### Names -/

theorem finds_propertyWord : Finds ([·]) .word propertyWord := by
  intro Γ d T known s hs
  refine .tells hs.run_isPropertyWord (.ite (fun hword => ?_) fun _ => ?_)
  · refine .tells hs.run_current ((Safe.advance hs ?_).bind fun _ s₁ ⟨t, T', hT, hs₁⟩ => ?_)
    · intro hend
      rw [hend] at hword
      cases hword
    · subst hT
      exact .finish hs₁ (.word hword) (fun _ hp => by simp [hp]) (by simp +contextual)
  · exact Safe.complain.bind fun _ _ h => h.elim

theorem finds_identifier : Finds ([·]) .name identifier := by
  intro Γ d T known s hs
  refine .tells hs.run_isIdentifier (.ite (fun hbinds => ?_) fun _ => ?_)
  · refine (finds_propertyWord hs).mono fun a s' ⟨ts, T', hs', hword⟩ => ⟨ts, T', hs', ?_⟩
    cases hword with
    | word hword => exact .name hbinds
  · exact Safe.complain.bind fun _ _ h => h.elim

theorem finds_declaredName (required : Bool) :
    Finds Option.toList (.declaredName required) (declaredName required) := by
  intro Γ d T known s hs
  refine .tells hs.run_isIdentifier (.ite (fun hbinds => ?_) fun hbinds => ?_)
  · refine .map ((finds_identifier hs).mono fun a s' ⟨ts, T', hs', hname⟩ => ?_)
    obtain ⟨n, rfl⟩ := hname.single rfl
    exact ⟨_, T', hs', .declaredName hname⟩
  · cases required with
    | true => exact Safe.complain.bind fun _ _ h => h.elim
    | false => exact .pure ⟨[], T, hs.learn (Forest.reads_nil _), .noName hbinds⟩

theorem safe_literal {Γ : Context} {d : Nat} {T : List Token} {known : Known} {s : State}
    (hs : At Γ d T known s) (hk : kindOf T = .string ∨ kindOf T = .number) :
    Safe literal s (Found ([·]) Γ d known (Derives .literal Γ d T)) := by
  refine .tells hs.run_current ((Safe.advance hs ?_).bind fun _ s₁ ⟨t, T', hT, hs₁⟩ => ?_)
  · rcases hk with hk | hk <;> simp [hk]
  · subst hT
    rcases hk with hk | hk
    · simp only [headOf_cons, show t.kind = .string from hk]
      exact .finish hs₁ (.string hk) (fun _ hp => by simp [hp]) (by simp +contextual)
    · simp only [headOf_cons, show t.kind = .number from hk]
      exact .finish hs₁ (.number hk) (fun _ hp => by simp [hp]) (by simp +contextual)

/-! ### Lists -/

theorem Finds.some {p : Parser NodeId} {c : Category} (hp : Finds ([·]) c p) :
    Finds Option.toList c (some <$> p) :=
  fun _ _ _ _ _ hs => (hp hs).map

section Lists

variable {element : Parser Slot} {item : Category} (hitem : item.isSingle = true)
  (helement : Finds Option.toList item element)

include hitem helement

/-- An element and the comma behind it. -/
theorem safe_listItem {holes : Bool} {close : TokenKind} {Γ : Context} {d : Nat} {T : List Token}
    {known : Known} {s : State} (hs : At Γ d T known s) :
    Safe (listItem element) s fun r s' => Found (·.1.toList) Γ d known (fun ts T' =>
        (r.2 = false → Derives (.list holes close item) Γ d T ts T') ∧
        (r.2 = true → T'.length < T.length ∧ ∀ ts' rest,
          Derives (.list holes close item) Γ d T' ts' rest →
          Derives (.list holes close item) Γ d T (ts ++ ts') rest)) r s' := by
  refine (helement hs).bind fun a s₁ ⟨ts, T₁, hs₁, h⟩ => ?_
  obtain ⟨x, rfl⟩ := h.single hitem
  obtain ⟨id, rfl⟩ := hs₁.exists_eq_some
  refine (Safe.accept hs₁ (by decide)).bind fun b s₂ ⟨T₂, haccepts, hs₂⟩ => .pure ⟨_, T₂, hs₂, ?_⟩
  cases b with
  | true =>
    obtain ⟨c, hc, rfl⟩ := haccepts
    refine ⟨nofun, fun _ => ⟨?_, fun ts' rest hrest => .listMore h hc hrest⟩⟩
    have hlength := h.length_le
    simp only [List.length_cons] at hlength
    omega
  | false =>
    obtain ⟨hk, rfl⟩ := haccepts
    exact ⟨fun _ => .listLast h hk, nofun⟩

theorem finds_commaList (close : TokenKind) :
    Finds id (.list false close item) (commaList close element) := by
  intro Γ d T known s hs
  refine .collect hs fun T known s hs => ?_
  refine .tells (hs.run_isAtOrEnd close) (.ite (fun hend => ?_) fun _ => ?_)
  · refine .pure ⟨[], T, hs.learn (Forest.reads_nil _), fun _ => .listEnd ?_, fun h => nomatch h⟩
    simpa using hend
  · exact safe_listItem hitem helement hs

theorem finds_commaListWithHoles :
    Finds id (.list true .closeBracket item) (commaListWithHoles element) := by
  intro Γ d T known s hs
  refine .collect hs fun T known s hs => ?_
  refine .tells (hs.run_isAtOrEnd _) (.ite (fun hend => ?_) fun _ => ?_)
  · refine .pure ⟨[], T, hs.learn (Forest.reads_nil _), fun _ => .listEnd ?_, fun h => nomatch h⟩
    simpa using hend
  · refine .tells (hs.run_isAt _) (.ite (fun hcomma => ?_) fun _ => safe_listItem hitem helement hs)
    have hk : kindOf T = .comma := by simpa using hcomma
    refine (Safe.insertHole hs).bind fun hole s₁ hs₁ => (Safe.advance hs₁ (by simp [hk])).bind ?_
    rintro _ s₂ ⟨t, T₁, rfl, hs₂⟩
    exact .pure ⟨_, T₁, hs₂, ⟨nofun, fun _ => ⟨Nat.lt_succ_self _, fun ts' rest hrest =>
      .listHole hk hrest⟩⟩⟩

end Lists

section Rules

variable {parse : Rule → Parser Slot} (hparse : FindsRules parse)

include hparse

theorem finds_memberName : Finds Option.toList .memberName (memberName parse) := by
  intro Γ d T known s hs
  refine .tells hs.run_kind ?_
  have hliteral : ∀ a s', Found ([·]) Γ d known (Derives .literal Γ d T) a s' →
      Found Option.toList Γ d known (Derives .memberName Γ d T) (some a) s' := by
    intro a s' ⟨ts, T', hs', h⟩
    obtain ⟨n, rfl⟩ := h.single rfl
    exact ⟨_, T', hs', .literalName h⟩
  split
  · next hk => exact .map ((safe_literal hs (.inl hk)).mono hliteral)
  · next hk => exact .map ((safe_literal hs (.inr hk)).mono hliteral)
  · next hk =>
    refine .position fun start => (Safe.advance hs (by simp [hk])).bind ?_
    rintro _ s₁ ⟨t, T₁, rfl, hs₁⟩
    refine (hparse .assignment hs₁).bind fun e s₂ ⟨es, T₂, hs₂, he⟩ => ?_
    obtain ⟨e', rfl⟩ := he.single rfl
    refine (Safe.expect hs₂ (by decide)).bind ?_
    rintro _ s₃ ⟨c, T₃, rfl, hc, hs₃⟩
    exact .map (.finish hs₃ (.computedName hk he hc)
      (fun _ hp => by simp [hp]) (by simp +contextual))
  · refine .tells hs.run_isPropertyWord (.ite (fun _ => ?_) fun _ => ?_)
    · refine .map ((finds_propertyWord hs).mono fun a s' ⟨ts, T', hs', h⟩ => ?_)
      obtain ⟨n, rfl⟩ := h.single rfl
      exact ⟨_, T', hs', .wordName h⟩
    · exact Safe.complain.bind fun _ _ h => h.elim

/-! ### Bindings -/

theorem finds_initializer : Finds Option.toList .initializer (initializer parse) := by
  intro Γ d T known s hs
  refine (Safe.accept hs (by decide)).bind fun b s₁ ⟨T₁, haccepts, hs₁⟩ => ?_
  cases b with
  | true =>
    obtain ⟨t, ht, rfl⟩ := haccepts
    refine (hparse .assignment hs₁).mono fun e s₂ ⟨es, T₂, hs₂, he⟩ => ?_
    obtain ⟨e', rfl⟩ := he.single rfl
    exact ⟨_, T₂, hs₂, .initializer ht he⟩
  | false =>
    obtain ⟨hk, rfl⟩ := haccepts
    exact .pure ⟨[], _, hs₁.learn (Forest.reads_nil _), .noInitializer hk⟩

/-- A property comes with the name that it is bound to, unless they are one. -/
theorem safe_propertyBinding {Γ : Context} {d : Nat} {T : List Token} {known : Known} {s : State}
    (hs : At Γ d T known s) :
    Safe (propertyBinding parse) s fun r s' => ∃ property n T',
      At Γ d T' ((r.2.toList, [n]) :: (r.1.toList, property.toList) :: known) s' ∧
      ∀ v rest, Derives .initializer Γ d T' v rest →
        Derives .objectPatternElement Γ d T
          [node (.patternElement false property (some n) v.head?)] rest := by
  refine .tells hs.run_isIdentifier (.ite (fun _ => ?_) fun hbinds => ?_)
  · refine (finds_identifier hs).bind fun name s₁ ⟨ns, T₁, hs₁, hn⟩ => ?_
    obtain ⟨p, rfl⟩ := hn.single rfl
    refine (Safe.accept hs₁ (by decide)).bind fun b s₂ ⟨T₂, haccepts, hs₂⟩ => ?_
    cases b with
    | true =>
      obtain ⟨c, hc, rfl⟩ := haccepts
      refine (hparse .bindingName hs₂).bind fun bound s₃ ⟨bs, T₃, hs₃, hb⟩ => ?_
      obtain ⟨n, rfl⟩ := hb.single rfl
      exact .pure ⟨some p, n, T₃, hs₃, fun v rest hv => .namedBinding hn hc hb hv⟩
    | false =>
      obtain ⟨hcolon, rfl⟩ := haccepts
      refine .pure ⟨none, p, _, ?_, fun v rest hv => .shorthandBinding hn hcolon hv⟩
      have hnone := hs₂.learn (Forest.reads_nil _)
      exact hnone.keep (by simp)
  · refine (finds_memberName hparse hs).bind fun property s₁ ⟨ps, T₁, hs₁, hp⟩ => ?_
    obtain ⟨p, rfl⟩ := hp.single rfl
    refine (Safe.expect hs₁ (by decide)).bind ?_
    rintro _ s₂ ⟨c, T₂, rfl, hc, hs₂⟩
    refine (hparse .bindingName hs₂).bind fun bound s₃ ⟨bs, T₃, hs₃, hb⟩ => ?_
    obtain ⟨n, rfl⟩ := hb.single rfl
    exact .pure ⟨some p, n, T₃, hs₃, fun v rest hv => .keyedBinding hbinds hp hc hb hv⟩

theorem finds_objectPatternElement :
    Finds ([·]) .objectPatternElement (objectPatternElement parse) := by
  intro Γ d T known s hs
  refine .position fun start => (Safe.accept hs (by decide)).bind fun b s₁ ⟨T₁, haccepts, hs₁⟩ => ?_
  cases b with
  | true =>
    obtain ⟨t, ht, rfl⟩ := haccepts
    refine (finds_identifier hs₁).bind fun name s₂ ⟨ns, T₂, hs₂, hn⟩ => ?_
    obtain ⟨n, rfl⟩ := hn.single rfl
    exact .finish hs₂ (.restProperty ht hn) (fun _ hp => by simp [hp]) (by simp +contextual)
  | false =>
    obtain ⟨-, rfl⟩ := haccepts
    refine (safe_propertyBinding hparse hs₁).bind ?_
    rintro ⟨property, name⟩ s₂ ⟨p, n, T₂, hs₂, hderives⟩
    refine (finds_initializer hparse hs₂).bind fun value s₃ ⟨v, T₃, hs₃, hv⟩ => ?_
    exact .finish hs₃ (hderives v T₃ hv) (fun _ hp => by simp [hp]) (by simp +contextual)

theorem finds_arrayPatternElement :
    Finds ([·]) .arrayPatternElement (arrayPatternElement parse) := by
  intro Γ d T known s hs
  refine .position fun start => (Safe.accept hs (by decide)).bind fun b s₁ ⟨T₁, haccepts, hs₁⟩ => ?_
  refine (hparse .bindingName hs₁).bind fun name s₂ ⟨ns, T₂, hs₂, hn⟩ => ?_
  obtain ⟨n, rfl⟩ := hn.single rfl
  cases b with
  | true =>
    obtain ⟨t, ht, rfl⟩ := haccepts
    exact .finish hs₂ (.restElement ht hn) (fun _ hp => by simp [hp]) (by simp +contextual)
  | false =>
    obtain ⟨-, rfl⟩ := haccepts
    refine (finds_initializer hparse hs₂).bind fun value s₃ ⟨v, T₃, hs₃, hv⟩ => ?_
    exact .finish hs₃ (.elementBinding hn hv) (fun _ hp => by simp [hp]) (by simp +contextual)

theorem finds_bindingName : Finds ([·]) .bindingName (bindingName parse) := by
  intro Γ d T known s hs
  refine .tells hs.run_kind ?_
  split
  · refine .position fun start => (Safe.expect hs (by decide)).bind ?_
    rintro _ s₁ ⟨t, T₁, rfl, ht, hs₁⟩
    refine (finds_commaList rfl (finds_objectPatternElement hparse).some _ hs₁).bind
      fun elements s₂ ⟨es, T₂, hs₂, he⟩ => (Safe.expect hs₂ (by decide)).bind ?_
    rintro _ s₃ ⟨c, T₃, rfl, hc, hs₃⟩
    exact .finish hs₃ (.objectPattern ht he hc) (fun _ hp => by simp [hp]) (by simp +contextual)
  · refine .position fun start => (Safe.expect hs (by decide)).bind ?_
    rintro _ s₁ ⟨t, T₁, rfl, ht, hs₁⟩
    refine (finds_commaListWithHoles rfl (finds_arrayPatternElement hparse).some hs₁).bind
      fun elements s₂ ⟨es, T₂, hs₂, he⟩ => (Safe.expect hs₂ (by decide)).bind ?_
    rintro _ s₃ ⟨c, T₃, rfl, hc, hs₃⟩
    exact .finish hs₃ (.arrayPattern ht he hc) (fun _ hp => by simp [hp]) (by simp +contextual)
  · refine (finds_identifier hs).mono fun a s' ⟨ts, T', hs', h⟩ => ?_
    obtain ⟨n, rfl⟩ := h.single rfl
    exact ⟨_, T', hs', .boundName h⟩

theorem finds_declarator : Finds ([·]) .declarator (declarator parse) := by
  intro Γ d T known s hs
  refine .position fun start => (hparse .bindingName hs).bind fun name s₁ ⟨ns, T₁, hs₁, hn⟩ => ?_
  obtain ⟨n, rfl⟩ := hn.single rfl
  refine (finds_initializer hparse hs₁).bind fun value s₂ ⟨v, T₂, hs₂, hv⟩ => ?_
  exact .finish hs₂ (.declarator hn hv) (fun _ hp => by simp [hp]) (by simp +contextual)

theorem finds_declarators : Finds id .declarators (declarators parse) := by
  intro Γ d T known s hs
  refine .collect hs fun T known s hs => .tells hs.run_startsBinding (.ite (fun _ => ?_) fun _ => ?_)
  · refine (finds_declarator hparse hs).bind fun bound s₁ ⟨ts, T₁, hs₁, hx⟩ => ?_
    obtain ⟨x, rfl⟩ := hx.single rfl
    refine (Safe.accept hs₁ (by decide)).bind fun b s₂ ⟨T₂, haccepts, hs₂⟩ => .pure ⟨_, T₂, hs₂, ?_⟩
    cases b with
    | true =>
      obtain ⟨c, hc, rfl⟩ := haccepts
      have hlength := hx.length_le
      simp only [List.length_cons] at hlength
      exact ⟨nofun, fun _ => ⟨by omega, fun ts' rest hrest => .moreDeclarators hx hc hrest⟩⟩
    | false =>
      obtain ⟨hk, rfl⟩ := haccepts
      exact ⟨fun _ => .lastDeclarator hx hk, nofun⟩
  · exact Safe.complain.bind fun _ _ h => h.elim

theorem safe_variableList {Γ : Context} {d : Nat} {T : List Token} {known : Known} {s : State}
    (hs : At Γ d T known s)
    (hk : kindOf T = .varKeyword ∨ kindOf T = .letKeyword ∨ kindOf T = .constKeyword) :
    Safe (variableList parse) s (Found ([·]) Γ d known (Derives .variableList Γ d T)) := by
  have hkeyword : ∃ keyword, variableKeyword.run s = (keyword, s) ∧
      kindOf T = variableKind keyword := by
    rw [variableKeyword, Parser.run_bind, hs.run_kind]
    rcases hk with hk | hk | hk
    · exact ⟨.var, by simp [hk], hk⟩
    · exact ⟨.let, by simp [hk], hk⟩
    · exact ⟨.const, by simp [hk], hk⟩
  obtain ⟨keyword, hrun, hkeyword⟩ := hkeyword
  refine .position fun start => .tells hrun ((Safe.advance hs ?_).bind ?_)
  · rcases hk with hk | hk | hk <;> simp [hk]
  · rintro _ s₁ ⟨t, T₁, rfl, hs₁⟩
    refine (finds_declarators hparse hs₁).bind fun bound s₂ ⟨xs, T₂, hs₂, hx⟩ => ?_
    exact .finish hs₂ (.variableList hkeyword hx) (fun _ hp => by simp [hp]) (by simp +contextual)

theorem finds_parameter : Finds ([·]) .parameter (parameter parse) := by
  intro Γ d T known s hs
  refine .position fun start => (Safe.accept hs (by decide)).bind fun b s₁ ⟨T₁, haccepts, hs₁⟩ => ?_
  refine (hparse .bindingName hs₁).bind fun name s₂ ⟨ns, T₂, hs₂, hn⟩ => ?_
  obtain ⟨n, rfl⟩ := hn.single rfl
  refine (finds_initializer hparse hs₂).bind fun value s₃ ⟨v, T₃, hs₃, hv⟩ => ?_
  exact .finish hs₃ (.parameter haccepts hn hv) (fun _ hp => by simp [hp]) (by simp +contextual)

end Rules

end FunctionNaming.Grammar
