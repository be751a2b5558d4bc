import FunctionNaming.Proofs.Grammar.Reprints.Binding

/-!
Functions, members and classes that are printed and read again.
-/

namespace FunctionNaming.Grammar

open SyntaxTree (node slotMarks commaMarks lineMarks blockMarks initializerMarks ifMarks heritageMarks)

/-- No statement begins with `else`. -/
theorem Derives.kindOf_ne_elseKeyword {Γ : Context} {d : Nat} {T rest : List Token}
    {ts : List SyntaxTree} (h : Derives .statement Γ d T ts rest) : kindOf T ≠ .elseKeyword := by
  intro hk
  cases h with
  | statement _ h =>
    cases h with
    | blockStatement hx | classStatement hx =>
      have hfirst := hx.first rfl
      simp [Category.first, hk] at hfirst
    | «variables» hx =>
      have hfirst := hx.first rfl
      simp [Category.first, hk] at hfirst
    | functionStatement hstarts => simp [startsFunction, hk] at hstarts
    | expressionStatement _ hx =>
      have hfirst := hx.first rfl
      simp [Category.first, hk, Context.startsExpression, Context.startsOperand,
        Context.startsChain, Context.startsPrimary, Context.binds, TokenKind.isContextual,
        TokenKind.isPrefixOperator] at hfirst
    | _ => simp_all

theorem Derives.kindOf_ne_elseKeyword_of_statements {Γ : Context} {d : Nat} {T rest : List Token}
    {ts : List SyntaxTree} (h : Derives .statements Γ d T ts rest) : kindOf T ≠ .elseKeyword := by
  cases h with
  | statementsEnd hk => rcases hk with hk | hk <;> simp [hk]
  | statementsMore hx => exact hx.kindOf_ne_elseKeyword

theorem Derives.isGroupBeforeArrow_arrowParameters {Γ : Context} {d : Nat} {T rest : List Token}
    {ts : List SyntaxTree} (h : Derives .arrowParameters Γ d T ts rest)
    (hT : kindOf T = .openParen) : isGroupBeforeArrow T = isArrowAt rest := by
  cases h with
  | groupParameters ht hlist hc =>
    exact isGroupBeforeArrow_eq (ht ▸ rfl) (hc ▸ rfl) (hlist.closing?_eq Nat.one_pos)
  | nameParameter hn =>
    have hfirst := hn.first rfl
    rw [hT] at hfirst
    cases hfirst

/-- A member begins with its name, which is no star. -/
theorem Derives.startsMember {Γ : Context} {d : Nat} {T rest : List Token} {ts : List SyntaxTree}
    (h : Derives .memberName Γ d T ts rest) :
    kindOf T ≠ .star ∧ (kindOf T).startsMember = true := by
  simpa [Category.first] using h.first rfl

/-- The name of a member is no modifier where no other name follows it. -/
theorem Derives.passModifiers_eq {Γ : Context} {d : Nat} {T rest : List Token} {ts : List SyntaxTree}
    (h : Derives .memberName Γ d T ts rest) (hrest : (kindOf rest).startsMember = false)
    (isStatic : Bool) :
    passModifiers isStatic T = (⟨isStatic, false, false, none⟩, T) ∧ passStatic T = (false, T) := by
  have hstar := h.startsMember.1
  suffices hword : (kindOf T ≠ .staticKeyword ∧ kindOf T ≠ .getKeyword ∧ kindOf T ≠ .setKeyword ∧
      kindOf T ≠ .asyncKeyword) ∨ isModifierAt T = false by
    rcases hword with ⟨h₁, h₂, h₃, h₄⟩ | hword
    · simp [passModifiers, passStatic, passAsync, passStar, h₁, h₂, h₃, h₄, hstar]
    · simp [passModifiers, passStatic, passAsync, passStar, hword, hstar]
  cases h with
  | literalName h => cases h <;> simp_all
  | wordName h =>
    cases h
    exact .inr hrest
  | computedName ht => simp [ht]

namespace Reprints

variable {p : Typeset} {c item : Category} {k close : TokenKind} {Γ : Context} {d : Nat}
  {T T₁ T₂ T₃ rest : List Token} {t u : Token} {ts xs v ps ns : List SyntaxTree}
  {e n x body : SyntaxTree} {isAsync isGenerator nameRequired : Bool} {role : FunctionRole}

attribute [local simp] Category.marks Category.Ends Category.Shows Category.endsItself
  Category.isElement EndsElement

/-! ### Statements and blocks -/

theorem statementsEnd : Reprints p .statements Γ d T [] rest :=
  ⟨fun _ _ hR => ⟨.statementsEnd hR, trivial⟩, nofun⟩

theorem statementsMore (hx : Reprints p .statement Γ d T [x] T₁)
    (hxs : Reprints p .statements Γ d T₁ xs rest) : Reprints p .statements Γ d T (x :: xs) rest := by
  refine ⟨fun b ms hR => ?_, nofun⟩
  have hxs := hxs.prints (p.after b (x.marks ++ [none])) ms (by simpa [lineMarks] using hR)
  have hx := hx.prints b (none :: (lineMarks xs ++ ms))
    (fun heq => absurd heq (by simpa using hxs.1.kindOf_ne_elseKeyword_of_statements))
  simpa [lineMarks] using Derives.statementsMore hx.1 (by simpa using hxs.1)

theorem after_blockMarks (b : Bool) : p.after b (blockMarks xs) = false := by
  cases xs <;> simp [blockMarks]

/-- A line is begun behind the opening brace of a block, unless the block is empty. -/
theorem tokens_blockMarks (xs : List SyntaxTree) (b : Bool) (ms : List Mark) :
    ∃ n, p.tokens b (blockMarks xs ++ ms) = p.token n (.fixed .openBrace) b ::
      p.tokens (!xs.isEmpty && p.breaks) (lineMarks xs ++ .fixed .closeBrace :: ms) := by
  cases xs with
  | nil => exact ⟨_, rfl⟩
  | cons x xs => exact ⟨_, by simp [blockMarks]; rfl⟩

theorem block (hd : d < maxNesting) (hxs : Reprints p .statements Γ (d + 1) T xs (u :: rest)) :
    Reprints p .block Γ d (t :: T) [node (.block xs)] rest := by
  refine ⟨fun b ms _ => ?_, fun _ b => by simp [after_blockMarks]⟩
  obtain ⟨n, htokens⟩ := tokens_blockMarks (p := p) xs b ms
  have hxs := hxs.prints (!xs.isEmpty && p.breaks) (.fixed .closeBrace :: ms) (by simp)
  have hblock := Derives.block (t := p.token n (.fixed .openBrace) b) hd (by simp) hxs.1 (by simp)
  refine ⟨?_, trivial⟩
  simpa [after_blockMarks, htokens] using hblock

/-! ### Functions -/

theorem signature (hps : Reprints p (.list false .closeParen .parameter) (.ofFunction isAsync isGenerator)
      d T ps (u :: T₁)) (hbody : Reprints p .block (.ofFunction isAsync isGenerator) d T₁ [body] rest) :
    Reprints p (.signature isAsync isGenerator) Γ d (t :: T) (ps ++ [body]) rest := by
  have hsettled := hbody.settled rfl
  refine ⟨fun b ms _ => ?_, fun _ b => by simpa using hsettled false⟩
  have hbody := hbody.prints false ms trivial
  have hps := hps.prints false (.fixed .closeParen :: (body.marks ++ ms)) (by simp [TokenKind.closes])
  simpa using Derives.signature (t := p.token _ (.fixed .openParen) b) (by simp)
    (by simpa using hps.1) (by simp) (by simpa using hbody.1)

/-- A word that may be there is passed where it is printed. -/
theorem accepts_ifMarks (present : Bool) {b : Bool} (ms : List Mark)
    (h : kindOf (p.tokens (b && !present) ms) ≠ k) :
    Accepts k present (p.tokens b (ifMarks present k ++ ms)) (p.tokens (b && !present) ms) := by
  cases present with
  | false => exact ⟨by simpa [ifMarks] using h, by simp [ifMarks]⟩
  | true => exact ⟨p.token ms.length (.fixed k) b, by simp, by simp [ifMarks]⟩

theorem noName : Reprints p (.declaredName false) Γ d T [] T :=
  ⟨fun _ _ hR => ⟨.noName (by simpa using hR), trivial⟩, nofun⟩

theorem declaredName {required : Bool} (hn : Reprints p .name Γ d T [n] rest) :
    Reprints p (.declaredName required) Γ d T [n] rest :=
  hn.lift rfl (fun _ _ _ => trivial) (fun _ _ _ _ _ h => ⟨.declaredName h, trivial⟩) nofun

/-- A name that may be missing does not begin with a mark. -/
theorem kindOf_ne_of_declaredName {required : Bool}
    (h : Derives (.declaredName required) Γ d T ns rest) (hbinds : Γ.binds k = false)
    (hrest : kindOf rest ≠ k) : kindOf T ≠ k := by
  cases h with
  | declaredName hn =>
    rintro rfl
    exact Bool.false_ne_true (hbinds.symm.trans (hn.first rfl))
  | noName => exact hrest

/-- The word of a function is printed at its beginning, behind the word `async` if there is one. -/
theorem startsFunction_tokens {ms : List Mark} (hasync : Accepts .asyncKeyword isAsync T (t :: T₁))
    (ht : t.kind = .functionKeyword) (b : Bool) {T' : List Token}
    (hT' : T' = p.tokens b (ifMarks isAsync .asyncKeyword ++ .fixed .functionKeyword :: ms)) :
    startsFunction T' = true ∧ (startsFunction T = true → Echoes b T T') := by
  subst hT'
  cases isAsync with
  | false =>
    have hT : kindOf T = .functionKeyword := by
      obtain ⟨-, rfl⟩ := hasync
      exact ht
    refine ⟨by simp [ifMarks, startsFunction], fun hstarts => ?_⟩
    exact ⟨by simp [ifMarks], by simp [ifMarks, hT], by simp [ifMarks], fun _ => hstarts⟩
  | true =>
    have hT : kindOf T = .asyncKeyword := by
      obtain ⟨u, hu, rfl⟩ := hasync
      exact hu
    refine ⟨by simp [ifMarks, startsFunction, isAsyncFunction], fun hstarts => ?_⟩
    exact ⟨by simp [ifMarks], by simp [ifMarks, hT], by simp [ifMarks], fun _ => hstarts⟩

theorem function (hasync : Accepts .asyncKeyword isAsync T (t :: T₁))
    (ht : t.kind = .functionKeyword)
    (hns : Reprints p (.declaredName nameRequired) (nameContext Γ isGenerator role) d T₂ ns T₃)
    (hsig : Reprints p (.signature isAsync isGenerator) Γ d T₃ (ps ++ [body]) rest) :
    Reprints p (.function role nameRequired) Γ d T
      [node (.function role ⟨isAsync, isGenerator, ns.head?, ps, some body⟩)] rest := by
  have hsettled := hsig.settled rfl
  refine ⟨fun b ms hrole => ?_, fun _ b => ?_⟩
  rotate_left
  · cases role <;> simpa [SyntaxTree.marks_namedFunction] using hsettled false
  have hmarks := SyntaxTree.marks_namedFunction hrole
    ⟨isAsync, isGenerator, ns.head?, ps, some body⟩
  have hsig := hsig.prints (p.after false (slotMarks ns.head?)) ms trivial
  have hns := hns.prints false (Category.marks (.signature isAsync isGenerator) (ps ++ [body]) ++ ms)
    (by simp [Context.binds, TokenKind.isContextual])
  have hne := kindOf_ne_of_declaredName (k := .star) hns.1 rfl (by simp)
  have hstar := accepts_ifMarks (p := p) (k := .star) isGenerator (b := false) _ hne
  have hword := accepts_ifMarks (p := p) (k := .asyncKeyword) isAsync (b := b)
    (.fixed .functionKeyword :: (ifMarks isGenerator .star ++ (slotMarks ns.head? ++
      (Category.marks (.signature isAsync isGenerator) (ps ++ [body]) ++ ms)))) (by simp)
  have hfunction : Derives (.function role nameRequired) Γ d _ _ _ :=
    .function hword (by simp) hstar hns.1 hsig.1
  exact ⟨by simpa [hmarks] using hfunction,
    startsFunction_tokens hasync ht b (by simp [hmarks]; rfl)⟩

theorem groupParameters (hps : Reprints p (.list false .closeParen .parameter) Γ d T ps (u :: rest)) :
    Reprints p .arrowParameters Γ d T₁ ps T₂ := by
  refine ⟨fun b ms _ => ?_, nofun⟩
  have hps := hps.prints false (.fixed .closeParen :: ms) (by simp [TokenKind.closes])
  simpa using Derives.groupParameters (t := p.token _ (.fixed .openParen) b) (by simp)
    (by simpa using hps.1) (by simp)

/-- A parameter without parentheses is printed in parentheses. -/
theorem nameParameter (hn : Reprints p .name Γ d T [n] rest) :
    Reprints p .arrowParameters Γ d T [node (.parameter false (some n) none)] rest := by
  have hlist : Reprints p (.list false .closeParen .parameter) Γ d T
      [node (.parameter false (some n) none)] (.atEnd 0 :: rest) :=
    listLast (fun _ => rfl) (parameter hn.boundName noInitializer)
  exact groupParameters hlist

theorem arrow (hasync : Accepts .asyncKeyword isAsync T T₁)
    (hps : Reprints p .arrowParameters Γ d T₁ ps (u :: T₂))
    (hbody : Reprints p .arrowBody (.ofFunction isAsync false) d T₂ [body] rest) :
    Reprints p .arrow Γ d T [node (.function .arrow ⟨isAsync, false, none, ps, some body⟩)] rest := by
  refine ⟨fun b ms hR => ?_, nofun⟩
  have hbody := hbody.prints false ms (EndsExpression.last (by simpa using hR) rfl)
  have hps := hps.prints (b && !isAsync) (.fixed .arrow :: (body.marks ++ ms)) trivial
  have hgroup := hps.1.isGroupBeforeArrow_arrowParameters (by simp)
  have hword := accepts_ifMarks (p := p) (k := .asyncKeyword) isAsync (b := b)
    (Category.marks .arrowParameters ps ++ .fixed .arrow :: (body.marks ++ ms)) (by simp)
  have harrow := Derives.arrow hword hps.1 (by simp) hbody.1
  refine ⟨by simpa using harrow, ?_⟩
  cases isAsync with
  | false =>
    refine ⟨by simpa [ifMarks, startsArrow, isArrowAt] using hgroup, ?_⟩
    exact ⟨by simp [ifMarks], by simp [ifMarks], by simp [ifMarks], by simp [ifMarks, startsFunction]⟩
  | true =>
    have hT : kindOf T = .asyncKeyword := by
      obtain ⟨t, ht, rfl⟩ := hasync
      exact ht
    refine ⟨by simpa [ifMarks, startsArrow, isArrowAt] using hgroup, ?_⟩
    exact ⟨by simp [ifMarks], by simp [ifMarks, hT], by simp [ifMarks],
      by simp [ifMarks, startsFunction, isAsyncFunction]⟩

theorem arrowBlock (hbody : Reprints p .block Γ d T [body] rest) :
    Reprints p .arrowBody Γ d T [body] rest :=
  hbody.lift rfl (fun _ _ _ => trivial) (fun _ _ _ _ _ h => ⟨.arrowBlock h, trivial⟩) nofun

theorem arrowExpression (hT : kindOf T ≠ .openBrace) (hbody : Reprints p .assignment Γ d T [body] rest) :
    Reprints p .arrowBody Γ d T [body] rest := by
  refine hbody.lift rfl (fun _ _ h => h) (fun b T' R _ hshows h => ⟨.arrowExpression ?_ h, trivial⟩)
    nofun
  rcases hshows.kind with hk | hk
  · simp [hk]
  · rwa [hk]

/-! ### Members -/

theorem startsMember_openParen : TokenKind.startsMember .openParen = false := rfl

theorem startsMember_assign : TokenKind.startsMember .assign = false := rfl

theorem startsMember_colon : TokenKind.startsMember .colon = false := rfl

theorem startsMember_semicolon : TokenKind.startsMember .semicolon = false := rfl

attribute [local simp] startsMember_openParen startsMember_assign startsMember_colon
  startsMember_semicolon

section Modifiers

variable {b isStatic : Bool} {ms : List Mark}

/-- What is printed for the modifiers of a method is passed before its name. -/
theorem passModifiers_ifMarks (isStatic : Bool)
    (hn : Derives .memberName Γ d (p.tokens ((b && !isAsync) && !isGenerator) ms) ns rest)
    (hbroken : isBroken (p.tokens ((b && !isAsync) && !isGenerator) ms) =
      ((b && !isAsync) && !isGenerator)) (hrest : (kindOf rest).startsMember = false) :
    passModifiers isStatic (p.tokens b (ifMarks isAsync .asyncKeyword ++
        (ifMarks isGenerator .star ++ ms))) =
      (⟨isStatic, isAsync, isGenerator, none⟩, p.tokens ((b && !isAsync) && !isGenerator) ms) := by
  have hname := (hn.passModifiers_eq hrest isStatic).1
  have hstarts := hn.startsMember
  cases isAsync with
  | false =>
    cases isGenerator with
    | false => simpa [ifMarks] using hname
    | true => simp [ifMarks, passModifiers, passAsync, passStar]
  | true =>
    cases isGenerator with
    | false =>
      simp only [Bool.not_true, Bool.and_false, Bool.not_false, Bool.and_true] at hstarts hbroken
      simp [ifMarks, passModifiers, passAsync, passStar, isModifierAt, hstarts, hbroken]
    | true => simp [ifMarks, passModifiers, passAsync, passStar, isModifierAt, TokenKind.startsMember]

/-- What is printed for the modifiers of a method, except `static`, begins a member. -/
theorem passStatic_eq
    (hn : Derives .memberName Γ d (p.tokens ((b && !isAsync) && !isGenerator) ms) ns rest)
    (hrest : (kindOf rest).startsMember = false) {T' : List Token}
    (hT' : T' = p.tokens b (ifMarks isAsync .asyncKeyword ++ (ifMarks isGenerator .star ++ ms))) :
    passStatic T' = (false, T') ∧ (kindOf T').startsMember = true := by
  subst hT'
  cases isAsync with
  | false =>
    cases isGenerator with
    | false =>
      have hname := (hn.passModifiers_eq hrest false).2
      have hstarts := hn.startsMember.2
      simp only [Bool.not_false, Bool.and_true] at hname hstarts
      simp [ifMarks, hname, hstarts]
    | true => simp [ifMarks, passStatic, TokenKind.startsMember]
  | true =>
    have hword : TokenKind.startsMember .asyncKeyword = true := rfl
    simp [ifMarks, passStatic, hword]

/-- The printed word `static` is passed before the rest of a member. -/
theorem passStatic_ifMarks (hpass : isStatic = false → passStatic (p.tokens b ms) = (false, p.tokens b ms))
    (hstarts : (kindOf (p.tokens (b && !isStatic) ms)).startsMember = true) :
    passStatic (p.tokens b (ifMarks isStatic .staticKeyword ++ ms)) =
      (isStatic, p.tokens (b && !isStatic) ms) := by
  cases isStatic with
  | false => simpa [ifMarks] using hpass rfl
  | true =>
    simp only [Bool.not_true, Bool.and_false] at hstarts
    simp [ifMarks, passStatic, isModifierAt, hstarts]

/-- The printed word of an accessor is passed before its name. -/
theorem passModifiers_accessor (isStatic : Bool) {accessor : AccessorRole} {T' : List Token}
    (hT' : T' = p.tokens b (.fixed accessor.kind :: ms))
    (hstarts : (kindOf (p.tokens false ms)).startsMember = true) :
    passModifiers isStatic T' = (⟨isStatic, false, false, some accessor⟩, p.tokens false ms) ∧
      passStatic T' = (false, T') ∧ (kindOf T').startsMember = true := by
  subst hT'
  have hword : (AccessorRole.kind accessor).startsMember = true := by cases accessor <;> rfl
  cases accessor <;>
    simp_all [AccessorRole.kind, passModifiers, passStatic, isModifierAt]

end Modifiers

section Rules

variable {accessor : AccessorRole} {isStatic : Bool}

theorem spread (he : Reprints p .assignment Γ d T [e] rest) :
    Reprints p .spread Γ d (t :: T) [node (.spread (some e))] rest := by
  refine ⟨fun b ms hR => ?_, nofun⟩
  have he := he.prints false ms (EndsElement.endsExpression (by simpa using hR))
  simpa using Derives.spread (t := p.token _ (.fixed .ellipsis) b) (by simp) he.1

theorem spreadMember (he : Reprints p .spread Γ d T [e] rest) :
    Reprints p .objectMember Γ d T [e] rest :=
  he.lift rfl (fun _ _ h => h) (fun _ _ _ _ _ h => ⟨.spreadMember h, trivial⟩) nofun

theorem accessorMember (hn : Reprints p .memberName Γ d T₁ [n] T₂)
    (hsig : Reprints p (.signature false false) Γ d T₂ (ps ++ [body]) rest) :
    Reprints p .objectMember Γ d T [node (.accessor accessor false (some n) ps (some body))] rest := by
  refine ⟨fun b ms hR => ?_, nofun⟩
  have hsig := hsig.prints (p.after false n.marks) ms trivial
  have hn := hn.prints false (Category.marks (.signature false false) (ps ++ [body]) ++ ms) trivial
  have htokens : p.tokens b (.fixed accessor.kind :: (n.marks ++
      (Category.marks (.signature false false) (ps ++ [body]) ++ ms))) = _ := rfl
  obtain ⟨hpass, -, -⟩ := passModifiers_accessor false htokens hn.1.startsMember.2
  simpa [ifMarks] using Derives.accessorMember hpass hn.1 hsig.1

theorem methodMember (hn : Reprints p .memberName Γ d T₁ [n] T₂)
    (hsig : Reprints p (.signature isAsync isGenerator) Γ d T₂ (ps ++ [body]) rest) :
    Reprints p .objectMember Γ d T
      [node (.method false isAsync isGenerator (some n) ps (some body))] rest := by
  refine ⟨fun b ms hR => ?_, nofun⟩
  have hsig := hsig.prints (p.after ((b && !isAsync) && !isGenerator) n.marks) ms trivial
  have hn := hn.prints ((b && !isAsync) && !isGenerator)
    (Category.marks (.signature isAsync isGenerator) (ps ++ [body]) ++ ms) trivial
  have hpass := passModifiers_ifMarks false hn.1 hn.2.2 (by simp)
  simpa [ifMarks] using Derives.methodMember hpass hn.1 (by simp) hsig.1

theorem valueMember (hn : Reprints p .memberName Γ d T₁ [n] (u :: T₂))
    (hv : Reprints p .assignment Γ d T₂ [e] rest) :
    Reprints p .objectMember Γ d T [node (.propertyAssignment (some n) (some e))] rest := by
  refine ⟨fun b ms hR => ?_, nofun⟩
  have hv := hv.prints false ms (EndsElement.endsExpression (by simpa using hR))
  have hn := hn.prints b (.fixed .colon :: (e.marks ++ ms)) trivial
  have hpass := (hn.1.passModifiers_eq (by simp) false).1
  simpa using Derives.valueMember hpass hn.1 (by simp) hv.1

theorem shorthandMember (hbinds : Γ.binds (kindOf T₁) = true)
    (hn : Reprints p .memberName Γ d T₁ [n] rest) :
    Reprints p .objectMember Γ d T [node (.shorthandProperty (some n))] rest := by
  refine ⟨fun b ms hR => ?_, nofun⟩
  have hends : EndsElement rest (p.tokens (p.after b n.marks) ms) := by simpa using hR
  obtain ⟨hn, hkind, -⟩ := hn.prints b ms trivial
  have hpass := (hn.passModifiers_eq hends.startsMember false).1
  simpa using Derives.shorthandMember hpass (by rwa [hkind]) hn
    (hends.ne rfl (by decide)) (hends.ne rfl (by decide))

theorem objectLiteral (ht : t.kind = .openBrace)
    (hlist : Reprints p (.list false .closeBrace .objectMember) Γ d T ts (u :: rest)) :
    Reprints p .objectLiteral Γ d (t :: T) [node (.objectLiteral ts)] rest := by
  refine ⟨fun b ms _ => ?_, fun _ b => by simp⟩
  have hlist := hlist.prints false (.fixed .closeBrace :: ms) (by simp [TokenKind.closes])
  refine ⟨?_, by simp [ht]⟩
  simpa using Derives.objectLiteral (t := p.token _ (.fixed .openBrace) b) (by simp)
    (by simpa using hlist.1) (by simp)

theorem classAccessor (hn : Reprints p .memberName Γ d T₁ [n] T₂)
    (hsig : Reprints p (.signature false false) Γ d T₂ (ps ++ [body]) rest) :
    Reprints p .classMember Γ d T
      [node (.accessor accessor isStatic (some n) ps (some body))] rest := by
  refine ⟨fun b ms _ => ?_, nofun⟩
  have hsig := hsig.prints (p.after false n.marks) ms trivial
  have hn := hn.prints false (Category.marks (.signature false false) (ps ++ [body]) ++ ms) trivial
  have htokens : p.tokens (b && !isStatic) (.fixed accessor.kind :: (n.marks ++
      (Category.marks (.signature false false) (ps ++ [body]) ++ ms))) = _ := rfl
  obtain ⟨hpass, -, hstarts⟩ := passModifiers_accessor isStatic htokens hn.1.startsMember.2
  have hstatic := passStatic_ifMarks (p := p) (b := b) (fun hstatic => ?_) hstarts
  · simpa using Derives.classAccessor hstatic hpass hn.1 hsig.1
  · subst hstatic
    exact (passModifiers_accessor false rfl hn.1.startsMember.2).2.1

theorem classMethod (hmethod : isStatic || isAsync || isGenerator || !isConstructorTree n)
    (hn : Reprints p .memberName Γ d T₁ [n] T₂)
    (hsig : Reprints p (.signature isAsync isGenerator) Γ d T₂ (ps ++ [body]) rest) :
    Reprints p .classMember Γ d T
      [node (.method isStatic isAsync isGenerator (some n) ps (some body))] rest := by
  refine ⟨fun b ms _ => ?_, nofun⟩
  have hsig := hsig.prints (p.after (((b && !isStatic) && !isAsync) && !isGenerator) n.marks) ms trivial
  have hn := hn.prints (((b && !isStatic) && !isAsync) && !isGenerator)
    (Category.marks (.signature isAsync isGenerator) (ps ++ [body]) ++ ms) trivial
  have hpass := passModifiers_ifMarks isStatic hn.1 hn.2.2 (by simp)
  obtain ⟨-, hstarts⟩ := passStatic_eq hn.1 (by simp) rfl
  have hstatic := passStatic_ifMarks (p := p) (b := b) (fun hstatic => ?_) hstarts
  · simpa using Derives.classMethod hstatic hpass hn.1 (by simp) hmethod hsig.1
  · subst hstatic
    exact (passStatic_eq (b := b) (by simpa using hn.1) (by simp) rfl).1

theorem classConstructor (hsig : Reprints p (.signature false false) Γ d T₂ (ps ++ [body]) rest) :
    Reprints p .classMember Γ d T [node (.classConstructor ps (some body))] rest := by
  refine ⟨fun b ms _ => ?_, nofun⟩
  have hsig := hsig.prints false ms trivial
  have hkind : (Look.word "constructor").kind = .identifier := by decide
  have hword := Derives.word (Γ := Γ) (d := d) (t := p.token
      (Category.marks (.signature false false) (ps ++ [body]) ++ ms).length (.word "constructor") b)
    (T := p.tokens false (Category.marks (.signature false false) (ps ++ [body]) ++ ms))
    (by simp [hkind, TokenKind.isWord])
  rw [Typeset.value_token, Look.value_word] at hword
  obtain ⟨hpass, hstatic⟩ := hword.wordName.passModifiers_eq (by simp) false
  simpa using Derives.classConstructor hstatic hpass hword.wordName rfl (by simp) hsig.1

/-- A field ends with a semicolon, even where the script ends it with a line. -/
theorem classField (hn : Reprints p .memberName Γ d T₁ [n] T₂)
    (hv : Reprints p .initializer Γ d T₂ v T₃) :
    Reprints p .classMember Γ d T [node (.classField isStatic (some n) v.head?)] rest := by
  refine ⟨fun b ms _ => ?_, nofun⟩
  have hv := hv.prints (p.after (b && !isStatic) n.marks) (.fixed .semicolon :: ms)
    (.inl (by simp [TokenKind.closes]))
  have hn := hn.prints (b && !isStatic) (initializerMarks v.head? ++ .fixed .semicolon :: ms) trivial
  have hnext : ∀ b, kindOf (p.tokens b (initializerMarks v.head? ++ .fixed .semicolon :: ms)) ≠
        .openParen ∧
      (kindOf (p.tokens b (initializerMarks v.head? ++ .fixed .semicolon :: ms))).startsMember =
        false := by
    intro b
    cases v.head? <;> simp
  obtain ⟨hpass, -⟩ := hn.1.passModifiers_eq (hnext _).2 isStatic
  have hstatic := passStatic_ifMarks (p := p) (b := b) (fun hstatic => ?_) hn.1.startsMember.2
  · simpa using Derives.classField hstatic hpass hn.1 (hnext _).1 hv.1
      (.inl ⟨p.token _ (.fixed .semicolon) _, by simp, rfl⟩)
  · subst hstatic
    simpa using (hn.1.passModifiers_eq (hnext _).2 false).2

theorem classMembersEnd : Reprints p .classMembers Γ d T [] rest :=
  ⟨fun _ _ hR => ⟨.classMembersEnd hR, trivial⟩, nofun⟩

/-- Semicolons between members are not printed. -/
theorem classMembersSkip (hxs : Reprints p .classMembers Γ d T₁ xs rest) :
    Reprints p .classMembers Γ d T xs rest :=
  ⟨hxs.prints, hxs.settled⟩

theorem classMembersMore (hx : Reprints p .classMember Γ d T [x] T₁)
    (hxs : Reprints p .classMembers Γ d T₁ xs rest) :
    Reprints p .classMembers Γ d T (x :: xs) rest := by
  refine ⟨fun b ms hR => ?_, nofun⟩
  have hxs := hxs.prints (p.after b (x.marks ++ [none])) ms (by simpa [lineMarks] using hR)
  have hx := hx.prints b (none :: (lineMarks xs ++ ms)) trivial
  simpa [lineMarks] using Derives.classMembersMore hx.1 (by simpa using hxs.1)

/-! ### Classes -/

theorem noHeritage : Reprints p .heritage Γ d T [] rest := by
  refine ⟨fun b ms hR => ⟨.noHeritage ?_, trivial⟩, nofun⟩
  have hk : kindOf (p.tokens b ms) = .openBrace := hR.1
  exact fun heq => absurd (hk.symm.trans heq) (by decide)

theorem heritage (he : Reprints p .leftHandSide Γ d T [e] rest) :
    Reprints p .heritage Γ d (t :: T) [e] rest := by
  refine ⟨fun b ms hR => ?_, nofun⟩
  obtain ⟨hkind, hrest⟩ := hR
  have he := he.prints false ms (.inr ⟨hkind.trans hrest.symm, hkind ▸ rfl, fun h => ?_⟩)
  · simpa [heritageMarks] using
      Derives.heritage (t := p.token _ (.fixed .extendsKeyword) b) (by simp) he.1
  · have h' : TokenKind.isPostfixOperator .openBrace = true := hkind ▸ h
    cases h'

theorem classLike {role : ClassRole} {hs : List SyntaxTree} (ht : t.kind = .classKeyword)
    (hns : Reprints p (.declaredName nameRequired) Γ d T ns T₁)
    (hhs : Reprints p .heritage Γ d T₁ hs (u :: T₂)) (hu : u.kind = .openBrace)
    (hxs : Reprints p .classMembers Γ d T₂ xs T₃) :
    Reprints p (.classLike role nameRequired) Γ d (t :: T)
      [node (.classLike role ns.head? hs.head? xs)] rest := by
  refine ⟨fun b ms _ => ⟨?_, by simp [ht]⟩, fun _ b => by simp [after_blockMarks]⟩
  obtain ⟨n, htokens⟩ := tokens_blockMarks (p := p) xs
    (p.after (p.after false (slotMarks ns.head?)) (heritageMarks hs.head?)) ms
  have hxs := hxs.prints (!xs.isEmpty && p.breaks) (.fixed .closeBrace :: ms) (by simp)
  have hhs := hhs.prints (p.after false (slotMarks ns.head?)) (blockMarks xs ++ ms)
    ⟨by simp [htokens], hu⟩
  have hnext : ∀ b, Γ.binds (kindOf (p.tokens b (heritageMarks hs.head? ++ (blockMarks xs ++ ms)))) =
      false := by
    intro b
    obtain ⟨n, htokens⟩ := tokens_blockMarks (p := p) xs b ms
    cases hs.head? with
    | none => simp [heritageMarks, htokens, Context.binds, TokenKind.isContextual]
    | some e => simp [heritageMarks, Context.binds, TokenKind.isContextual]
  have hns := hns.prints false (heritageMarks hs.head? ++ (blockMarks xs ++ ms)) (hnext _)
  rw [show Category.marks .heritage hs = heritageMarks hs.head? from rfl, htokens] at hhs
  simpa [after_blockMarks] using Derives.classLike (t := p.token _ (.fixed .classKeyword) b)
    (by simp) hns.1 hhs.1 (by simp) hxs.1 (by simp)

end Rules

end Reprints

end FunctionNaming.Grammar
