import FunctionNaming.Proofs.Grammar.Reprints.Basic

/-!
Names, literals, bindings and lists that are printed and read again.
-/

namespace FunctionNaming.Grammar

open SyntaxTree (node slotMarks commaMarks initializerMarks)

namespace Reprints

variable {p : Typeset} {c item : Category} {k close : TokenKind} {Γ : Context} {d : Nat}
  {T T₁ T₂ rest : List Token} {t u : Token} {ts xs v : List SyntaxTree} {e n x : SyntaxTree}

attribute [local simp] Category.marks Category.Ends Category.Shows Category.endsItself
  Category.isElement EndsElement

/-! ### Names and literals -/

theorem isWord_word (text : String) : (Look.word text).kind.isWord = true := by
  have hall : ∀ k ∈ TokenKind.keywords, k.isWord = true := by decide
  rw [Look.word]
  cases h : TokenKind.keyword? text with
  | none => rfl
  | some k => exact hall k (List.mem_of_find?_eq_some h)

theorem word (ht : t.IsSound) (hk : t.kind.isWord = true) :
    Reprints p .word Γ d (t :: T) [node (.identifier t.value)] rest := by
  refine ⟨fun b ms _ => ?_, fun _ b => by simp [SyntaxTree.marks_identifier (ht.word hk)]⟩
  have hword := Derives.word (t := p.token ms.length (.word t.value) b) (Γ := Γ) (d := d)
    (T := p.tokens false ms) (by simpa using isWord_word t.value)
  have hkind : (Look.word t.value).kind = t.kind := (ht.keyword hk).symm
  simpa [SyntaxTree.marks_identifier (ht.word hk), hkind] using hword

theorem name (ht : t.IsSound) (hk : Γ.binds t.kind = true) :
    Reprints p .name Γ d (t :: T) [node (.identifier t.value)] rest := by
  have hword := isWord_of_binds hk
  have hkind : (Look.word t.value).kind = t.kind := (ht.keyword hword).symm
  refine ⟨fun b ms _ => ?_, fun _ b => by simp [SyntaxTree.marks_identifier (ht.word hword)]⟩
  have hname := Derives.name (t := p.token ms.length (.word t.value) b) (Γ := Γ) (d := d)
    (T := p.tokens false ms) (by simpa [hkind] using hk)
  simpa [SyntaxTree.marks_identifier (ht.word hword), hkind] using hname

theorem string (ht : t.IsSound) (hk : t.kind = .string) : Reprints p .literal Γ d (t :: T)
    [node (.stringLiteral (t.text.toList.headD '"') t.value)] rest := by
  have hmarks := SyntaxTree.marks_stringLiteral (ht.string hk) t.value
  generalize t.text.toList.headD '"' = quote at hmarks ⊢
  refine ⟨fun b ms _ => ?_, fun _ b => by simp [hmarks]⟩
  have hstring := Derives.string (Γ := Γ) (d := d) (T := p.tokens false ms)
    (t := p.token ms.length (.string quote t.value) b) (by simp)
  have hquote : (Look.string quote t.value).text.toList.headD '"' = quote := by
    simp [Look.string, Text.quoted]
  rw [Typeset.text_token, hquote] at hstring
  simpa [hmarks, hk] using hstring

theorem number (ht : Literal.IsNumeral t.value.toList) (hk : t.kind = .number) :
    Reprints p .literal Γ d (t :: T) [node (.numberLiteral t.value)] rest := by
  have hmarks := SyntaxTree.marks_numberLiteral ht
  refine ⟨fun b ms _ => ?_, fun _ b => by simp [hmarks]⟩
  have hnumber := Derives.number (Γ := Γ) (d := d) (T := p.tokens false ms)
    (t := p.token ms.length (.number t.value) b) (by simp)
  simpa [hmarks, hk] using hnumber

theorem computedName (ht : t.kind = .openBracket) (he : Reprints p .assignment Γ d T [e] (u :: rest)) :
    Reprints p .memberName Γ d (t :: T) [node (.computedName (some e))] rest := by
  refine ⟨fun b ms _ => ?_, nofun⟩
  have he := he.prints false (.fixed .closeBracket :: ms) (.closes (by simp [TokenKind.closes]))
  simpa [ht] using Derives.computedName (t := p.token _ (.fixed .openBracket) b) (by simp)
    (by simpa using he.1) (by simp)

theorem literalName (hn : Reprints p .literal Γ d T [n] rest) :
    Reprints p .memberName Γ d T [n] rest :=
  hn.lift rfl (fun _ _ _ => trivial) (fun _ _ _ _ hshows h => ⟨.literalName h, hshows⟩) nofun

theorem wordName (hn : Reprints p .word Γ d T [n] rest) : Reprints p .memberName Γ d T [n] rest :=
  hn.lift rfl (fun _ _ _ => trivial) (fun _ _ _ _ hshows h => ⟨.wordName h, hshows⟩) nofun

/-! ### Bindings -/

theorem noInitializer : Reprints p .initializer Γ d T [] T := by
  refine ⟨fun b ms hR => ?_, nofun⟩
  have hne : kindOf (p.tokens b ms) ≠ .assign := by
    intro heq
    simp [heq, TokenKind.closes] at hR
  exact ⟨.noInitializer hne, .inr (hR.imp_right And.left)⟩

theorem initializer (he : Reprints p .assignment Γ d T [e] rest) :
    Reprints p .initializer Γ d (t :: T) [e] rest := by
  refine ⟨fun b ms hR => ?_, nofun⟩
  have he := he.prints false ms (by simpa using EndsElement.endsExpression hR)
  exact ⟨.initializer (t := p.token _ (.fixed .assign) b) (by simp) (by simpa using he.1),
    .inl (by simp)⟩

/-- What follows a name is no colon, if it begins with a value or ends the element of a list. -/
theorem ne_colon {b : Bool} (h : Category.initializer.Shows Γ b T T₁) : kindOf T₁ ≠ .colon := by
  intro heq
  simp [heq, TokenKind.closes] at h

theorem restProperty (hn : Reprints p .name Γ d T [n] rest) :
    Reprints p .objectPatternElement Γ d (t :: T)
      [node (.patternElement true none (some n) none)] rest := by
  refine ⟨fun b ms _ => ?_, nofun⟩
  have hn := hn.prints false ms trivial
  simpa [SyntaxTree.ifMarks] using
    Derives.restProperty (t := p.token _ (.fixed .ellipsis) b) (by simp) hn.1

theorem shorthandBinding (hn : Reprints p .name Γ d T [n] T₁)
    (hv : Reprints p .initializer Γ d T₁ v rest) :
    Reprints p .objectPatternElement Γ d T
      [node (.patternElement false none (some n) v.head?)] rest := by
  refine ⟨fun b ms hR => ?_, nofun⟩
  obtain ⟨hv, hshows⟩ := hv.prints (p.after b n.marks) ms (by simpa [SyntaxTree.ifMarks] using hR)
  have hn := hn.prints b (initializerMarks v.head? ++ ms) trivial
  simpa [SyntaxTree.ifMarks] using Derives.shorthandBinding hn.1 (ne_colon hshows) hv

theorem namedBinding (hx : Reprints p .name Γ d T [x] (u :: T₁)) 
    (hn : Reprints p .bindingName Γ d T₁ [n] T₂) (hv : Reprints p .initializer Γ d T₂ v rest) :
    Reprints p .objectPatternElement Γ d T
      [node (.patternElement false (some x) (some n) v.head?)] rest := by
  refine ⟨fun b ms hR => ?_, nofun⟩
  have hv := hv.prints (p.after false n.marks) ms (by simpa [SyntaxTree.ifMarks] using hR)
  have hn := hn.prints false (initializerMarks v.head? ++ ms) trivial
  have hx := hx.prints b (.fixed .colon :: (n.marks ++ (initializerMarks v.head? ++ ms))) trivial
  simpa [SyntaxTree.ifMarks] using Derives.namedBinding hx.1 (by simp) hn.1 hv.1

theorem keyedBinding (hbinds : ¬Γ.binds (kindOf T) = true)
    (hx : Reprints p .memberName Γ d T [x] (u :: T₁))
    (hn : Reprints p .bindingName Γ d T₁ [n] T₂) (hv : Reprints p .initializer Γ d T₂ v rest) :
    Reprints p .objectPatternElement Γ d T
      [node (.patternElement false (some x) (some n) v.head?)] rest := by
  refine ⟨fun b ms hR => ?_, nofun⟩
  have hv := hv.prints (p.after false n.marks) ms (by simpa [SyntaxTree.ifMarks] using hR)
  have hn := hn.prints false (initializerMarks v.head? ++ ms) trivial
  obtain ⟨hx, hkind⟩ :=
    hx.prints b (.fixed .colon :: (n.marks ++ (initializerMarks v.head? ++ ms))) trivial
  simpa [SyntaxTree.ifMarks] using
    Derives.keyedBinding (by rwa [hkind.1]) hx (by simp) hn.1 hv.1

theorem restElement (hn : Reprints p .bindingName Γ d T [n] rest) :
    Reprints p .arrayPatternElement Γ d (t :: T)
      [node (.patternElement true none (some n) none)] rest := by
  refine ⟨fun b ms _ => ?_, nofun⟩
  have hn := hn.prints false ms trivial
  simpa [SyntaxTree.ifMarks] using
    Derives.restElement (t := p.token _ (.fixed .ellipsis) b) (by simp) hn.1

theorem elementBinding (hn : Reprints p .bindingName Γ d T [n] T₁)
    (hv : Reprints p .initializer Γ d T₁ v rest) :
    Reprints p .arrayPatternElement Γ d T
      [node (.patternElement false none (some n) v.head?)] rest := by
  refine ⟨fun b ms hR => ?_, nofun⟩
  have hv := hv.prints (p.after b n.marks) ms (by simpa [SyntaxTree.ifMarks] using hR)
  have hn := hn.prints b (initializerMarks v.head? ++ ms) trivial
  simpa [SyntaxTree.ifMarks] using Derives.elementBinding hn.1 hv.1

theorem objectPattern (hlist : Reprints p (.list false .closeBrace .objectPatternElement) Γ d T ts
      (u :: rest)) :
    Reprints p .bindingName Γ d (t :: T) [node (.pattern .object ts)] rest := by
  refine ⟨fun b ms _ => ?_, nofun⟩
  have hlist := hlist.prints false (.fixed .closeBrace :: ms) (by simp [TokenKind.closes])
  simpa using Derives.objectPattern (t := p.token _ (.fixed .openBrace) b) (by simp)
    (by simpa using hlist.1) (by simp)

theorem arrayPattern (hlist : Reprints p (.list true .closeBracket .arrayPatternElement) Γ d T ts
      (u :: rest)) :
    Reprints p .bindingName Γ d (t :: T) [node (.pattern .array ts)] rest := by
  refine ⟨fun b ms _ => ?_, nofun⟩
  have hlist := hlist.prints false (.fixed .closeBracket :: ms) (by simp [TokenKind.closes])
  simpa using Derives.arrayPattern (t := p.token _ (.fixed .openBracket) b) (by simp)
    (by simpa using hlist.1) (by simp)

theorem boundName (hn : Reprints p .name Γ d T [n] rest) :
    Reprints p .bindingName Γ d T [n] rest :=
  hn.lift rfl (fun _ _ _ => trivial) (fun _ _ _ _ _ h => ⟨.boundName h, trivial⟩) nofun

theorem declarator (hn : Reprints p .bindingName Γ d T [n] T₁)
    (hv : Reprints p .initializer Γ d T₁ v rest) :
    Reprints p .declarator Γ d T [node (.declarator (some n) v.head?)] rest := by
  refine ⟨fun b ms hR => ?_, nofun⟩
  have hv := hv.prints (p.after b n.marks) ms (by simpa using hR)
  have hn := hn.prints b (initializerMarks v.head? ++ ms) trivial
  simpa using Derives.declarator hn.1 hv.1

theorem parameter {isRest : Bool} (hn : Reprints p .bindingName Γ d T₁ [n] T₂)
    (hv : Reprints p .initializer Γ d T₂ v rest) :
    Reprints p .parameter Γ d T [node (.parameter isRest (some n) v.head?)] rest := by
  refine ⟨fun b ms hR => ?_, nofun⟩
  cases isRest with
  | false =>
    have hv := hv.prints (p.after b n.marks) ms (by simpa [SyntaxTree.ifMarks] using hR)
    have hn := hn.prints b (initializerMarks v.head? ++ ms) trivial
    have hstart := hn.1.first rfl
    have hne : kindOf (p.tokens b (n.marks ++ (initializerMarks v.head? ++ ms))) ≠ .ellipsis := by
      intro heq
      simp [Category.first, heq, Context.startsBinding, Context.binds, TokenKind.isContextual]
        at hstart
    have hno : Accepts .ellipsis false _ _ := ⟨hne, rfl⟩
    simpa [SyntaxTree.ifMarks] using Derives.parameter hno hn.1 hv.1
  | true =>
    have hv := hv.prints (p.after false n.marks) ms (by simpa [SyntaxTree.ifMarks] using hR)
    have hn := hn.prints false (initializerMarks v.head? ++ ms) trivial
    have hellipsis : Accepts .ellipsis true
        (p.tokens b (.fixed .ellipsis :: (n.marks ++ (initializerMarks v.head? ++ ms))))
        (p.tokens false (n.marks ++ (initializerMarks v.head? ++ ms))) := ⟨_, by simp, rfl⟩
    simpa [SyntaxTree.ifMarks] using Derives.parameter hellipsis hn.1 hv.1

/-! ### Lists -/

theorem commaMarks_singleton (hx : x.shape.isHole = false) : commaMarks [x] = x.marks := by
  simp [commaMarks, hx]

theorem commaMarks_cons (hts : ts ≠ []) :
    commaMarks (x :: ts) = x.marks ++ .fixed .comma :: commaMarks ts := by
  obtain ⟨y, ys, rfl⟩ := List.exists_cons_of_ne_nil hts
  rfl

theorem commaMarks_hole : commaMarks (node .hole :: ts) = .fixed .comma :: commaMarks ts := by
  cases ts with
  | nil => simp [commaMarks, SyntaxTree.shape, ShapeOf.isHole]
  | cons y ys => simp [commaMarks]

theorem lastDeclarator (hhole : x.shape.isHole = false) (hx : Reprints p .declarator Γ d T [x] rest) :
    Reprints p .declarators Γ d T [x] rest := by
  refine ⟨fun b ms hR => ?_, nofun⟩
  have hmarks : Category.declarators.marks [x] = x.marks := commaMarks_singleton hhole
  rw [hmarks] at hR ⊢
  have hx := hx.prints b ms (.inl hR)
  have hne : kindOf (p.tokens (p.after b x.marks) ms) ≠ .comma := by
    intro heq
    simp [heq, TokenKind.closes] at hR
  exact ⟨.lastDeclarator hx.1 hne, trivial⟩

theorem moreDeclarators (hu : u.kind = .comma) (hx : Reprints p .declarator Γ d T [x] (u :: T₁))
    (hxs : Reprints p .declarators Γ d T₁ xs rest) (hne : xs ≠ []) :
    Reprints p .declarators Γ d T (x :: xs) rest := by
  refine ⟨fun b ms hR => ?_, nofun⟩
  have hmarks : Category.declarators.marks (x :: xs) = x.marks ++ .fixed .comma :: commaMarks xs :=
    commaMarks_cons hne
  rw [hmarks] at hR ⊢
  have hxs := hxs.prints false ms (by simpa using hR)
  have hx := hx.prints b (.fixed .comma :: (commaMarks xs ++ ms)) (by simp [hu])
  simpa using Derives.moreDeclarators hx.1 (by simp) hxs.1

theorem variableList {keyword : VariableKeyword} (hxs : Reprints p .declarators Γ d T xs rest) :
    Reprints p .variableList Γ d (t :: T) [node (.variableList keyword xs)] rest := by
  refine ⟨fun b ms hR => ?_, nofun⟩
  have hxs := hxs.prints false ms (by simpa using hR)
  simpa using
    Derives.variableList (t := p.token _ (.fixed (variableKind keyword)) b) (by simp) hxs.1

variable {holes : Bool}

theorem listEnd : Reprints p (.list holes close item) Γ d T [] rest :=
  ⟨fun _ _ hR => ⟨.listEnd (.inl hR.1), trivial⟩, nofun⟩

theorem ne_comma (hk : k.closes = true) (hT : kindOf T = k) : kindOf T ≠ .comma := by
  rintro heq
  rw [← hT, heq] at hk
  cases hk

theorem listLast (hhole : item.isElement = true → x.shape.isHole = false)
    (hx : Reprints p item Γ d T [x] rest) : Reprints p (.list holes close item) Γ d T [x] T₁ := by
  refine ⟨fun b ms hR => ?_, nofun⟩
  have hmarks : Category.marks (.list holes close item) [x] = x.marks :=
    commaMarks_singleton (hhole hR.2.2)
  rw [hmarks] at hR ⊢
  obtain ⟨hclose, hcloses, hitem⟩ := hR
  rw [← Category.marks_of_isElement hitem] at hclose ⊢
  have hx := hx.prints b ms (Category.ends_of_isElement hitem (.inl (hclose ▸ hcloses)))
  exact ⟨.listLast hx.1 (ne_comma hcloses hclose), trivial⟩

theorem listMore (hhole : item.isElement = true → x.shape.isHole = false) (hu : u.kind = .comma)
    (hx : Reprints p item Γ d T [x] (u :: T₁))
    (hxs : Reprints p (.list holes close item) Γ d T₁ xs rest) :
    Reprints p (.list holes close item) Γ d T (x :: xs) rest := by
  by_cases hnil : xs = []
  · -- A comma behind the last element is not printed.
    subst hnil
    exact listLast hhole hx
  · refine ⟨fun b ms hR => ?_, nofun⟩
    have hmarks : Category.marks (.list holes close item) (x :: xs) =
        x.marks ++ .fixed .comma :: commaMarks xs := commaMarks_cons hnil
    rw [hmarks] at hR ⊢
    have hitem := hR.2.2
    have hxs := hxs.prints false ms (by simpa using hR)
    have hx := hx.prints b (.fixed .comma :: (commaMarks xs ++ ms))
      (Category.ends_of_isElement hitem (.inr ⟨by simp, hu⟩))
    rw [Category.marks_of_isElement hitem] at hx
    simpa using Derives.listMore hx.1 (by simp) hxs.1

theorem listHole (hxs : Reprints p (.list true close item) Γ d T xs rest) :
    Reprints p (.list true close item) Γ d (t :: T) (node .hole :: xs) rest := by
  refine ⟨fun b ms hR => ?_, nofun⟩
  have hmarks : Category.marks (.list true close item) (node .hole :: xs) =
      .fixed .comma :: commaMarks xs := commaMarks_hole
  rw [hmarks] at hR ⊢
  have hxs := hxs.prints false ms (by simpa using hR)
  simpa using Derives.listHole (c := p.token _ (.fixed .comma) b) (by simp) hxs.1

end Reprints

end FunctionNaming.Grammar
