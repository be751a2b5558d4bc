import FunctionNaming.Proofs.Grammar.Reprints.Function

/-!
Expressions that are printed and read again.
-/

namespace FunctionNaming.Grammar

open SyntaxTree (node commaMarks ifMarks EndsInYield)

theorem Derives.tail_of_name {Γ : Context} {d : Nat} {T rest : List Token} {ts : List SyntaxTree}
    (h : Derives .name Γ d T ts rest) : T.tail = rest := by
  cases h
  rfl

namespace Reprints

variable {p : Typeset} {k : TokenKind} {Γ : Context} {d above precedence : Nat} {calls : Bool}
  {T T₁ T₂ rest R : List Token} {t u o : Token} {ts : List SyntaxTree} {e l r x y n : SyntaxTree}

attribute [local simp] Category.marks Category.Ends Category.Shows Category.endsItself

/-! ### Operators -/

theorem mem_of_isOperator {k : TokenKind} (h : k.isAssignment = true ∨ k.precedence?.isSome = true ∨
    k.isPrefixOperator = true ∨ k.isPostfixOperator = true) :
    k ∈ TokenKind.marks ++ TokenKind.keywords := by
  cases k <;> first | decide | (exfalso; revert h; decide)

theorem operandsFirst (he : Reprints p .unary Γ d T [e] rest) :
    Reprints p (.operands above) Γ d T [e] rest :=
  he.lift rfl (fun _ _ h => h) (fun _ _ _ _ hshows h => ⟨.operandsFirst h, hshows⟩) nofun

theorem operandsNext (hl : Reprints p (.operands above) Γ d T [l] (o :: T₁))
    (ho : o.kind.precedence? = some precedence) (hstops : ¬stopsOperands Γ above o.kind = true)
    (hr : Reprints p (.binary precedence) Γ d T₁ [r] rest) :
    Reprints p (.operands above) Γ d T [node (.binary (some l) o.kind (some r))] rest := by
  have hsome : o.kind.precedence?.isSome = true := Option.isSome_of_eq_some ho
  have hmarks := SyntaxTree.marks_binary (mem_of_isOperator (.inr (.inl hsome))) (some l) (some r)
  have hcontinues : o.kind.continues = true := by simp [TokenKind.continues, hsome]
  have hbehind : o.kind.isPostfixOperator = false := by
    revert hsome
    cases o.kind <;> decide
  refine ⟨fun b ms hR => ?_, fun h => absurd h Bool.false_ne_true⟩
  have hr := hr.prints false ms (by simpa [hmarks] using hR)
  have hl := hl.prints b (.fixed o.kind :: (r.marks ++ ms)) (.mark rfl hcontinues hbehind)
  have hderives := Derives.operandsNext (o := p.token _ (.fixed o.kind) _) hl.1 (by simpa using ho)
    (by simpa using hstops) hr.1
  simpa [hmarks] using And.intro hderives hl.2

theorem binary (he : Reprints p (.operands above) Γ d T [e] rest)
    (hstops : stopsOperands Γ above (kindOf rest) = true) :
    Reprints p (.binary above) Γ d T [e] rest := by
  refine he.lift rfl (fun _ _ h => h) (fun _ _ R hR hshows h => ⟨.binary h ?_, hshows⟩)
    fun h => absurd h Bool.false_ne_true
  rcases hR with hcloses | ⟨heq, -, -⟩
  · revert hcloses
    rw [stopsOperands]
    cases kindOf R <;> first | exact fun _ => rfl | exact fun h => absurd h Bool.false_ne_true
  · rwa [heq]

theorem prefixed (hd : d < maxNesting) (ho : o.kind.isPrefixOperator = true)
    (he : Reprints p .unary Γ (d + 1) T [e] rest) :
    Reprints p .unary Γ d (o :: T) [node (.prefixed o.kind (some e))] rest := by
  have hmarks := SyntaxTree.marks_prefixed (mem_of_isOperator (.inr (.inr (.inl ho)))) (some e)
  refine ⟨fun b ms hR => ?_, nofun⟩
  have he := he.prints false ms (by simpa [hmarks] using hR)
  have hderives := Derives.prefixed (o := p.token (e.marks ++ ms).length (.fixed o.kind) b) hd
    (by simpa using ho) he.1
  have hne : ∀ k : TokenKind, k.isPrefixOperator = false → o.kind ≠ k := fun k hk heq =>
    Bool.false_ne_true (hk.symm.trans (heq ▸ ho))
  exact ⟨by simpa [hmarks] using hderives, .of_kind (by simp [hmarks]) (hne _ rfl) (hne _ rfl)
    (hne _ rfl)⟩

theorem postfixed (he : Reprints p .leftHandSide Γ d T [e] (o :: rest))
    (ho : o.kind.isPostfixOperator = true) (hline : ¬o.afterLineBreak = true) :
    Reprints p .unary Γ d T [node (.postfixed o.kind (some e))] rest := by
  have hmarks := SyntaxTree.marks_postfixed (mem_of_isOperator (.inr (.inr (.inr ho)))) (some e)
  refine ⟨fun b ms hR => ?_, nofun⟩
  have hsettled := he.settled rfl b
  have he := he.prints b (.fixed o.kind :: ms)
    (.inr ⟨by simp, by simp [TokenKind.continues, ho], fun _ => by simpa using hline⟩)
  have hderives := Derives.postfixed (o := p.token _ (.fixed o.kind) _) he.1 (by simpa using ho)
    (by simpa using hsettled)
  simpa [hmarks] using And.intro hderives he.2

theorem operand (he : Reprints p .leftHandSide Γ d T [e] rest)
    (hrest : ¬((kindOf rest).isPostfixOperator = true ∧ ¬isBroken rest = true)) :
    Reprints p .unary Γ d T [e] rest := by
  refine he.lift rfl (fun _ _ h => h) (fun _ _ R hR hshows h => ⟨.operand h ?_, hshows⟩) nofun
  rintro ⟨hbehind, -⟩
  rcases hR with hcloses | ⟨heq, -, hbroken⟩
  · revert hcloses hbehind
    cases kindOf R <;> decide
  · exact hrest ⟨heq ▸ hbehind, by simp [hbroken hbehind]⟩

/-! ### Accesses and calls -/

/-- No word `function` is printed behind a name, and behind the name `let` nothing that is bound. -/
theorem primaryName (hT : T.tail = rest) (he : Reprints p .name Γ d T [e] rest) :
    Reprints p .primary Γ d T [e] rest := by
  refine he.lift rfl (fun _ _ _ => trivial) (fun b T' R hR hshows h => ?_) (fun _ => rfl)
  have htail := h.tail_of_name
  have hstarts : ¬startsFunction T' = true := by
    intro hstarts
    rcases Bool.or_eq_true_iff.1 hstarts with hk | hasync
    · have hfirst : Γ.binds (kindOf T') = true := h.first rfl
      rw [eq_of_beq hk] at hfirst
      cases hfirst
    · simp only [isAsyncFunction, htail, Bool.and_eq_true, beq_iff_eq] at hasync
      exact EndsOperand.ne hR rfl rfl hasync.2.1
  refine ⟨.primaryName hstarts h, hshows.2, .inr hshows.1, fun _ => ?_, fun h => absurd h hstarts⟩
  rw [htail, hT]
  exact hR.imp_right And.left

theorem primaryFunction (hstarts : startsFunction T = true)
    (he : Reprints p (.function .expression false) Γ d T [e] rest) :
    Reprints p .primary Γ d T [e] rest :=
  he.lift rfl (fun _ _ _ => nofun)
    (fun _ _ _ _ hshows h => ⟨.primaryFunction hshows.1 h, hshows.2 hstarts⟩) (fun _ => rfl)

theorem primaryClass (hT : kindOf T = .classKeyword)
    (he : Reprints p (.classLike .expression false) Γ d T [e] rest) :
    Reprints p .primary Γ d T [e] rest := by
  refine he.lift rfl (fun _ _ _ => trivial) (fun _ _ _ _ hshows h => ⟨.primaryClass h, ?_⟩)
    (fun _ => rfl)
  exact .of_kind hshows (by simp [hT]) (by simp [hT]) (by simp [hT])

theorem primaryObject (hT : kindOf T = .openBrace) (he : Reprints p .objectLiteral Γ d T [e] rest) :
    Reprints p .primary Γ d T [e] rest := by
  refine he.lift rfl (fun _ _ _ => trivial) (fun _ _ _ _ hshows h => ⟨.primaryObject h, ?_⟩)
    (fun _ => rfl)
  exact .of_kind hshows (by simp [hT]) (by simp [hT]) (by simp [hT])

theorem primaryLiteral (hT : kindOf T = .string ∨ kindOf T = .number)
    (he : Reprints p .literal Γ d T [e] rest) : Reprints p .primary Γ d T [e] rest := by
  refine he.lift rfl (fun _ _ _ => trivial) (fun _ _ _ _ hshows h => ⟨.primaryLiteral h, ?_⟩)
    (fun _ => rfl)
  rcases hT with hT | hT <;> exact .of_kind hshows (by simp [hT]) (by simp [hT]) (by simp [hT])

/-- A word that is an expression by itself is printed as it is. -/
theorem marks_of_keywordShape? {shape : ShapeOf SyntaxTree} (h : keywordShape? k = some shape) :
    (node shape).marks = [.fixed k] := by
  have hk : k ∈ TokenKind.marks ++ TokenKind.keywords := by
    cases k <;> first | decide | cases h
  have hshape : Layout.shape (fun t : SyntaxTree => some t.shape) (SyntaxTree.layout .asWritten)
      .asWritten shape = .text k.spelling := by
    cases k <;> cases h <;> rfl
  rw [SyntaxTree.marks_node, hshape, Layout.marks_spelling hk]

theorem primaryKeyword {shape : ShapeOf SyntaxTree} (hk : keywordShape? t.kind = some shape) :
    Reprints p .primary Γ d (t :: T) [node shape] rest := by
  have hmarks := marks_of_keywordShape? hk
  have hkind : t.kind ≠ .letKeyword ∧ t.kind ≠ .functionKeyword ∧ t.kind ≠ .asyncKeyword := by
    refine ⟨?_, ?_, ?_⟩ <;> (intro heq; rw [heq] at hk; cases hk)
  refine ⟨fun b ms _ => ⟨?_, ?_⟩, fun _ b => by simp [hmarks]⟩
  · simpa [hmarks] using Derives.primaryKeyword (Γ := Γ) (d := d) (T := p.tokens false ms)
      (t := p.token ms.length (.fixed t.kind) b) (by simpa using hk)
  · exact .of_kind (by simp [hmarks]) hkind.1 hkind.2.1 hkind.2.2

theorem parenthesized (ht : t.kind = .openParen)
    (he : Reprints p .expression Γ.outsideForHead d T [e] (u :: rest)) :
    Reprints p .primary Γ d (t :: T) [node (.parenthesized (some e))] rest := by
  refine ⟨fun b ms _ => ⟨?_, ?_⟩, fun _ b => by simp⟩
  · have he := he.prints false (.fixed .closeParen :: ms) (by simp [TokenKind.closes])
    simpa using Derives.parenthesized (t := p.token (e.marks ++ .fixed .closeParen :: ms).length (.fixed .openParen) b) (by simp) he.1 (by simp)
  · exact .of_kind (by simp [ht]) (by simp [ht]) (by simp [ht]) (by simp [ht])

theorem arrayLiteral (ht : t.kind = .openBracket)
    (hlist : Reprints p (.list true .closeBracket .element) Γ.outsideForHead d T ts (u :: rest)) :
    Reprints p .primary Γ d (t :: T) [node (.arrayLiteral ts)] rest := by
  refine ⟨fun b ms _ => ⟨?_, ?_⟩, fun _ b => by simp⟩
  · have hlist := hlist.prints false (.fixed .closeBracket :: ms) (by simp [TokenKind.closes, Category.isElement])
    simpa using Derives.arrayLiteral (t := p.token (commaMarks ts ++ .fixed .closeBracket :: ms).length (.fixed .openBracket) b) (by simp) hlist.1 (by simp)
  · exact .of_kind (by simp [ht]) (by simp [ht]) (by simp [ht]) (by simp [ht])

theorem elementSpread (he : Reprints p .spread Γ d T [e] rest) :
    Reprints p .element Γ d T [e] rest :=
  he.lift rfl (fun _ _ h => h) (fun _ _ _ _ _ h => ⟨.elementSpread h, trivial⟩) nofun

theorem element (he : Reprints p .assignment Γ d T [e] rest) :
    Reprints p .element Γ d T [e] rest :=
  he.lift rfl (fun _ _ h => EndsElement.endsExpression h)
    (fun _ _ _ _ _ h => ⟨.element h, trivial⟩) nofun

theorem arguments (ht : t.kind = .openParen)
    (hlist : Reprints p (.list false .closeParen .element) Γ.outsideForHead d T ts (u :: rest)) :
    Reprints p .arguments Γ d (t :: T) ts rest := by
  refine ⟨fun b ms _ => ⟨?_, by simp [ht]⟩, fun _ b => by simp⟩
  have hlist := hlist.prints false (.fixed .closeParen :: ms)
    (by simp [TokenKind.closes, Category.isElement])
  simpa using Derives.arguments
    (t := p.token (commaMarks ts ++ .fixed .closeParen :: ms).length (.fixed .openParen) b)
    (by simp) hlist.1 (by simp)

theorem chainFirst (he : Reprints p .primary Γ d T [e] rest) :
    Reprints p (.chain calls) Γ d T [e] rest :=
  he.lift rfl (fun _ _ h => h) (fun _ _ _ _ hshows h => ⟨.chainFirst h, hshows⟩) (fun _ => rfl)

theorem chainNew (he : Reprints p .construction Γ d T [e] rest) :
    Reprints p (.chain calls) Γ d T [e] rest :=
  he.lift rfl (fun _ _ h => h) (fun _ _ _ _ hshows h => ⟨.chainNew h, hshows⟩) (fun _ => rfl)

theorem propertyAccess (hx : Reprints p (.chain calls) Γ d T [x] (o :: T₁)) (ho : o.kind = .dot)
    (hn : Reprints p .word Γ d T₁ [n] rest) :
    Reprints p (.chain calls) Γ d T [node (.propertyAccess (some x) (some n))] rest := by
  have hsettled := hn.settled rfl
  refine ⟨fun b ms _ => ?_, fun _ b => by simpa using hsettled false⟩
  have hn := hn.prints false ms trivial
  have hx := hx.prints b (.fixed .dot :: (n.marks ++ ms)) (.mark ho rfl rfl)
  simpa using And.intro (Derives.propertyAccess hx.1 (by simp) hn.1) hx.2

theorem elementAccess (hx : Reprints p (.chain calls) Γ d T [x] (o :: T₁))
    (ho : o.kind = .openBracket) (hy : Reprints p .expression Γ.outsideForHead d T₁ [y] (u :: rest)) :
    Reprints p (.chain calls) Γ d T [node (.elementAccess (some x) (some y))] rest := by
  refine ⟨fun b ms _ => ?_, fun _ b => by simp⟩
  have hy := hy.prints false (.fixed .closeBracket :: ms) (by simp [TokenKind.closes])
  have hx := hx.prints b (.fixed .openBracket :: (y.marks ++ .fixed .closeBracket :: ms))
    (.mark ho rfl rfl)
  simpa using And.intro (Derives.elementAccess hx.1 (by simp) hy.1 (by simp)) hx.2

theorem call (hx : Reprints p (.chain true) Γ d T [x] (o :: T₁)) (ho : o.kind = .openParen)
    (hts : Reprints p .arguments Γ d (o :: T₁) ts rest) :
    Reprints p (.chain true) Γ d T [node (.call (some x) ts)] rest := by
  refine ⟨fun b ms _ => ?_, fun _ b => by simp⟩
  have hts := hts.prints (p.after b x.marks) ms trivial
  have hx := hx.prints b (Category.marks .arguments ts ++ ms) (.mark ho rfl rfl)
  simpa using And.intro (Derives.call hx.1 hts.1) hx.2

theorem leftHandSide (hdot : kindOf rest ≠ .dot) (hbracket : kindOf rest ≠ .openBracket)
    (hparen : kindOf rest ≠ .openParen) (he : Reprints p (.chain true) Γ d T [e] rest) :
    Reprints p .leftHandSide Γ d T [e] rest :=
  he.lift rfl (fun _ _ h => h) (fun _ _ _ hR hshows h => ⟨.leftHandSide h (hR.ne_of_ne rfl hdot)
    (hR.ne_of_ne rfl hbracket) (hR.ne_of_ne rfl hparen), hshows⟩) (fun _ => rfl)

theorem new (hd : d < maxNesting) (ht : t.kind = .newKeyword)
    (he : Reprints p (.chain false) Γ (d + 1) T [e] rest) (hdot : kindOf rest ≠ .dot)
    (hbracket : kindOf rest ≠ .openBracket) (hparen : kindOf rest ≠ .openParen) :
    Reprints p .construction Γ d (t :: T) [node (.new (some e) none)] rest := by
  have hsettled := he.settled rfl
  refine ⟨fun b ms hR => ⟨?_, ?_⟩, fun _ b => by simpa using hsettled false⟩
  · have hends : EndsOperand rest (p.tokens (p.after false e.marks) ms) := by simpa using hR
    have he := he.prints false ms hends
    simpa using Derives.new (t := p.token (e.marks ++ ms).length (.fixed .newKeyword) b) hd (by simp) he.1 (hends.ne_of_ne rfl hdot)
      (hends.ne_of_ne rfl hbracket) (hends.ne_of_ne rfl hparen)
  · exact .of_kind (by simp [ht]) (by simp [ht]) (by simp [ht]) (by simp [ht])

theorem newCall (hd : d < maxNesting) (ht : t.kind = .newKeyword)
    (he : Reprints p (.chain false) Γ (d + 1) T [e] (o :: T₁)) (ho : o.kind = .openParen)
    (hts : Reprints p .arguments Γ (d + 1) (o :: T₁) ts rest) :
    Reprints p .construction Γ d (t :: T) [node (.new (some e) (some ts))] rest := by
  refine ⟨fun b ms _ => ⟨?_, ?_⟩, fun _ b => by simp⟩
  · have hts := hts.prints (p.after false e.marks) ms trivial
    have he := he.prints false (Category.marks .arguments ts ++ ms) (.mark ho rfl rfl)
    simpa using Derives.newCall (t := p.token (e.marks ++ (Category.marks .arguments ts ++ ms)).length (.fixed .newKeyword) b) hd (by simp) he.1 hts.1
  · exact .of_kind (by simp [ht]) (by simp [ht]) (by simp [ht]) (by simp [ht])

/-! ### The comma and assignment -/

theorem sequenceFirst (he : Reprints p .assignment Γ d T [e] rest) :
    Reprints p .sequence Γ d T [e] rest :=
  he.lift rfl (fun _ _ h => h) (fun _ _ _ _ hshows h => ⟨.sequenceFirst h, hshows⟩) nofun

theorem sequenceNext (hl : Reprints p .sequence Γ d T [l] (o :: T₁)) (ho : o.kind = .comma)
    (hr : Reprints p .assignment Γ d T₁ [r] rest) :
    Reprints p .sequence Γ d T [node (.binary (some l) .comma (some r))] rest := by
  have hmarks := SyntaxTree.marks_binary (k := .comma) (by decide) (some l) (some r)
  refine ⟨fun b ms hR => ?_, nofun⟩
  have hr := hr.prints false ms (EndsExpression.last (by simpa [hmarks] using hR) rfl)
  have hl := hl.prints b (.fixed .comma :: (r.marks ++ ms)) (.inr ⟨by simp [ho], .inl (by simp)⟩)
  simpa [hmarks] using And.intro (Derives.sequenceNext hl.1 (by simp) hr.1) hl.2

theorem expression (he : Reprints p .sequence Γ d T [e] rest) :
    Reprints p .expression Γ d T [e] rest :=
  he.lift rfl (fun _ _ h => .inl h)
    (fun _ _ R hR hshows h => ⟨.expression h (ne_comma (k := kindOf R) hR rfl), hshows⟩) nofun

/-- What ends the word `yield` without an operand is no assignment. -/
theorem endsYieldAt_of_ends {ts : List SyntaxTree} (h : EndsExpression ts rest R)
    (hyield : ∃ t ∈ ts, t.EndsInYield) : kindOf R ≠ .star ∧ endsYieldAt R = true := by
  obtain ⟨t, ht, hyield⟩ := hyield
  have hkind : (kindOf R).closes = true ∨ kindOf R = .comma ∨ kindOf R = .colon := by
    rcases h with h | ⟨-, h | h | ⟨-, h⟩⟩
    · exact .inl h
    · exact .inr (.inl h)
    · exact .inr (.inr h)
    · exact absurd hyield (h t ht)
  rw [endsYieldAt, endsStatement]
  revert hkind
  cases kindOf R <;> simp [TokenKind.closes]

/-- What begins with an expression, on the line of the word before it, goes on with what the word
begins. -/
theorem goesOn_of_startsExpression (h : Γ.startsExpression (kindOf R) = true)
    (hbroken : isBroken R = false) :
    kindOf R ≠ .star ∧ ¬endsYieldAt R = true ∧ ¬endsStatement R = true := by
  rw [endsYieldAt, endsStatement, hbroken]
  revert h
  cases kindOf R <;> simp [Context.startsExpression, Context.startsOperand, Context.startsChain,
    Context.startsPrimary, Context.binds, TokenKind.isPrefixOperator, TokenKind.isContextual]

theorem yieldAlone (ht : t.kind = .yieldKeyword) :
    Reprints p .yield Γ d (t :: T) [node (.yieldExpression false none)] rest := by
  refine ⟨fun b ms hR => ⟨?_, ?_⟩, nofun⟩
  · obtain ⟨hstar, hends⟩ := endsYieldAt_of_ends hR ⟨_, List.mem_cons_self, .alone⟩
    simp only [Category.marks, List.head?_cons, SyntaxTree.slotMarks_some,
      SyntaxTree.marks_yieldExpression, ifMarks, Bool.false_eq_true, if_false, List.nil_append,
      SyntaxTree.slotMarks_none, Typeset.after_cons, Typeset.after_nil, List.cons_append,
      Typeset.tokens_cons] at hstar hends ⊢
    exact .yieldAlone (by simp) (.inr hstar) hends
  · exact .of_kind (by simp [ht]) (by simp [ht]) (by simp [ht]) (by simp [ht])

theorem yieldValue (ht : t.kind = .yieldKeyword) (he : Reprints p .assignment Γ d T [e] rest) :
    Reprints p .yield Γ d (t :: T) [node (.yieldExpression false (some e))] rest := by
  refine ⟨fun b ms hR => ⟨?_, ?_⟩, nofun⟩
  · have he := he.prints false ms (EndsExpression.last (by simpa [ifMarks] using hR) rfl)
    obtain ⟨hstar, hends, -⟩ := goesOn_of_startsExpression (he.1.first rfl) he.2.broken
    simpa [ifMarks] using Derives.yieldValue
      (t := p.token (e.marks ++ ms).length (.fixed .yieldKeyword) b) (by simp) (.inr hstar) hends he.1
  · exact .of_kind (by simp [ht]) (by simp [ht]) (by simp [ht]) (by simp [ht])

theorem yieldAll (ht : t.kind = .yieldKeyword) (he : Reprints p .assignment Γ d T [e] rest) :
    Reprints p .yield Γ d (t :: T₁) [node (.yieldExpression true (some e))] rest := by
  refine ⟨fun b ms hR => ⟨?_, ?_⟩, nofun⟩
  · have he := he.prints false ms (EndsExpression.last (by simpa [ifMarks] using hR) rfl)
    simpa [ifMarks] using Derives.yieldAll (t := p.token (e.marks ++ ms).length.succ (.fixed .yieldKeyword) b) 
      (s := p.token (e.marks ++ ms).length (.fixed .star) false) (by simp) (by simp) (by simp) he.1
  · exact .of_kind (by simp [ht]) (by simp [ht]) (by simp [ht]) (by simp [ht])

theorem noCondition (he : Reprints p (.binary 0) Γ d T [e] rest) :
    Reprints p .conditional Γ d T [e] rest := by
  refine he.lift rfl (fun _ _ h => h.endsOperand) (fun _ _ R hR hshows h => ⟨.noCondition h ?_, hshows⟩) nofun
  intro heq
  have hkind := EndsExpression.kind hR
  simp [heq, TokenKind.closes, TokenKind.isAssignment] at hkind

theorem conditional (he : Reprints p (.binary 0) Γ d T [e] (o :: T₁)) (ho : o.kind = .question)
    (hx : Reprints p .assignment Γ.outsideForHead d T₁ [x] (u :: T₂)) (hu : u.kind = .colon)
    (hy : Reprints p .assignment Γ d T₂ [y] rest) :
    Reprints p .conditional Γ d T [node (.conditional (some e) (some x) (some y))] rest := by
  refine ⟨fun b ms hR => ?_, nofun⟩
  have hy := hy.prints false ms (EndsExpression.last (by simpa using hR) rfl)
  have hx := hx.prints false (.fixed .colon :: (y.marks ++ ms)) (.inr ⟨by simp [hu], .inr (.inl (by simp))⟩)
  have he := he.prints b (.fixed .question :: (x.marks ++ .fixed .colon :: (y.marks ++ ms))) (.mark ho rfl rfl)
  simpa using And.intro (Derives.conditional he.1 (by simp) hx.1 (by simp) hy.1) he.2

theorem assignmentYield (hd : d < maxNesting) (hyield : Γ.inGenerator = true)
    (he : Reprints p .yield Γ (d + 1) T [e] rest) : Reprints p .assignment Γ d T [e] rest :=
  he.lift rfl (fun _ _ h => h) (fun _ _ _ _ hshows h => ⟨.assignmentYield hd hyield h, hshows⟩) nofun

theorem assignmentArrow (hd : d < maxNesting) (he : Reprints p .arrow Γ (d + 1) T [e] rest) :
    Reprints p .assignment Γ d T [e] rest :=
  he.lift rfl (fun _ _ h => h) (fun _ _ _ _ hshows h => ⟨.assignmentArrow hd hshows.1 h, hshows.2⟩) nofun

theorem noAssignment (hd : d < maxNesting) (he : Reprints p .conditional Γ (d + 1) T [e] rest)
    (hrest : ¬(kindOf rest).isAssignment = true) : Reprints p .assignment Γ d T [e] rest := by
  refine he.lift rfl (fun _ _ h => h) (fun _ _ R hR hshows h => ⟨.noAssignment hd ?_ h ?_, hshows⟩) nofun
  · simpa using h.startsArrow_eq_false rfl (EndsExpression.hasNoArrow hR)
  · intro hassign
    rcases hR with hcloses | ⟨heq, -⟩
    · revert hcloses hassign
      cases kindOf R <;> decide
    · exact hrest (heq ▸ hassign)

theorem assignment (hd : d < maxNesting) (hyield : ¬l.EndsInYield)
    (hl : Reprints p .conditional Γ (d + 1) T [l] (o :: T₁)) (ho : o.kind.isAssignment = true)
    (hr : Reprints p .assignment Γ (d + 1) T₁ [r] rest) :
    Reprints p .assignment Γ d T [node (.binary (some l) o.kind (some r))] rest := by
  have hmarks := SyntaxTree.marks_binary (mem_of_isOperator (.inl ho)) (some l) (some r)
  refine ⟨fun b ms hR => ?_, nofun⟩
  have hr := hr.prints false ms (EndsExpression.last (by simpa [hmarks] using hR) rfl)
  have hends : EndsExpression [l] (o :: T₁)
      (p.tokens (p.after b l.marks) (.fixed o.kind :: (r.marks ++ ms))) :=
    .inr ⟨by simp, .inr (.inr ⟨by simpa using ho, by simpa using hyield⟩)⟩
  have hl := hl.prints b (.fixed o.kind :: (r.marks ++ ms)) hends
  have harrow := hl.1.startsArrow_eq_false rfl hends.hasNoArrow
  have hderives := Derives.assignment
    (o := p.token (r.marks ++ ms).length (.fixed o.kind) (p.after b l.marks)) hd (by simpa using harrow)
    hl.1 (by simpa using ho) hr.1
  simpa [hmarks] using And.intro hderives hl.2

end Reprints

end FunctionNaming.Grammar
