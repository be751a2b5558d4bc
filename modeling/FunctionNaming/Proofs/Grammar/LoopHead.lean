import FunctionNaming.Proofs.Grammar.Decided
import FunctionNaming.Proofs.Grammar.ForHead
import FunctionNaming.Proofs.Grammar.Relocation
import FunctionNaming.Proofs.Token.Continued

/-!
Expressions in the head of a loop. The text of an expression statement is put into the head: its
tokens are moved, others follow the semicolon that ends it, and `in` is no operator there. So it is
read as the same expression if and only if this exposes no operation with `in`.
-/

namespace FunctionNaming

open SyntaxTree (node)

namespace Grammar

/-! ### Where phrases end -/

/-- That the tokens before `rest`, if there are any, do not end in a semicolon. -/
def Encloses (T rest : List Token) : Prop :=
  T = rest ∨ ∃ p t, T = p ++ t :: rest ∧ t.kind ≠ .semicolon

variable {c : Category} {Γ : Context} {d : Nat} {T T' rest : List Token} {ts : List SyntaxTree}

namespace Encloses

theorem refl (T : List Token) : Encloses T T := .inl rfl

theorem trans (h : Encloses T T') (h' : Encloses T' rest) : Encloses T rest := by
  rcases h' with rfl | ⟨p', t', rfl, ht'⟩
  · exact h
  · rcases h with rfl | ⟨p, t, rfl, -⟩
    · exact .inr ⟨p', t', rfl, ht'⟩
    · exact .inr ⟨p ++ t :: p', t', by simp, ht'⟩

theorem of_suffix {t : Token} (h : t :: rest <:+ T) : t.kind = .semicolon ∨ Encloses T rest := by
  obtain ⟨p, rfl⟩ := h
  exact or_iff_not_imp_left.2 fun ht => .inr ⟨p, t, rfl, ht⟩

theorem cons {t : Token} (h : Encloses T rest) (ht : t.kind ≠ .semicolon) :
    Encloses (t :: T) rest :=
  ((of_suffix (List.suffix_refl _)).resolve_left ht).trans h

theorem drop {t : Token} (h : Encloses T (t :: rest)) : t.kind = .semicolon ∨ Encloses T rest :=
  or_iff_not_imp_left.2 fun ht => h.trans ((refl _).cons ht)

/-- A word that is passed is no semicolon. -/
theorem tail {k : TokenKind} (h : kindOf T = k) (hk : k ≠ .semicolon) : Encloses T T.tail := by
  cases T with
  | nil => exact refl _
  | cons t T => exact (refl T).cons fun ht => hk (h.symm.trans ht)

theorem of_accepts {k : TokenKind} {present : Bool} (h : Accepts k present T T')
    (hk : k ≠ .semicolon) : Encloses T T' := by
  cases present with
  | false =>
    obtain ⟨-, rfl⟩ := h
    exact refl _
  | true =>
    obtain ⟨t, rfl, rfl⟩ := h
    exact (refl _).cons hk

theorem of_passStatic {b : Bool} (h : passStatic T = (b, T')) : Encloses T T' := by
  rw [passStatic] at h
  split at h
  · next hpass =>
    cases h
    exact tail (eq_of_beq (Bool.and_eq_true_iff.1 hpass).1) (by decide)
  · cases h
    exact refl _

theorem of_passModifiers {b : Bool} {m : Modifiers} (h : passModifiers b T = (m, T')) :
    Encloses T T' := by
  have hasync : Encloses T (passAsync T).2 := by
    rw [passAsync]
    split
    · next hpass => exact tail (eq_of_beq (Bool.and_eq_true_iff.1 hpass).1) (by decide)
    · exact refl _
  have hstar : Encloses (passAsync T).2 (passStar (passAsync T).2).2 := by
    rw [passStar]
    split
    · next hpass => exact tail (eq_of_beq hpass) (by decide)
    · exact refl _
  rw [passModifiers] at h
  split at h
  · next hpass =>
    cases h
    exact tail (eq_of_beq (Bool.and_eq_true_iff.1 hpass).1) (by decide)
  · split at h
    · next hpass =>
      cases h
      exact tail (eq_of_beq (Bool.and_eq_true_iff.1 hpass).1) (by decide)
    · cases h
      exact hasync.trans hstar

end Encloses

/-- Whether phrases of the category may end in a semicolon. -/
def Category.mayEndInSemicolon : Category → Bool
  | .statements | .classMember | .classMembers | .variableStatement | .alternative
  | .exportedDeclaration | .defaultExport | .bareStatement | .statement => true
  | .list _ _ item => item.mayEndInSemicolon
  | _ => false

section Ends

attribute [local grind →] Encloses.of_accepts Encloses.of_passStatic Encloses.of_passModifiers
  Encloses.trans Encloses.drop Encloses.of_suffix Derives.isSuffix
attribute [local grind ←] Encloses.cons
attribute [local grind .] Encloses.refl
attribute [local grind] Category.mayEndInSemicolon

/-- Only statements and members of classes end in a semicolon. -/
theorem Derives.encloses (h : Derives c Γ d T ts rest) (hc : c.mayEndInSemicolon = false) :
    Encloses T rest := by
  -- Names, operators and the words of expressions are no semicolons.
  have hname : ∀ Γ : Context, Γ.binds .semicolon = false := fun _ => rfl
  have hword : TokenKind.isWord .semicolon = false := rfl
  have hassignment : TokenKind.isAssignment .semicolon = false := rfl
  have hprecedence : TokenKind.precedence? .semicolon = none := rfl
  have hprefixed : TokenKind.isPrefixOperator .semicolon = false := rfl
  have hpostfixed : TokenKind.isPostfixOperator .semicolon = false := rfl
  have hkeyword : keywordShape? .semicolon = none := rfl
  have hvariable : ∀ keyword, variableKind keyword ≠ .semicolon := fun keyword => by
    cases keyword <;> decide
  induction h
  all_goals grind -linarith

end Ends

end Grammar

namespace Script

open Grammar

variable {file source : String} {e : SyntaxTree}

/-- That the text ends in a semicolon that is a token, and no part of a comment. -/
def EndsInMark (source : String) : Prop :=
  ∃ T semi last, tokens source = T ++ [semi, last] ∧ semi.kind = .semicolon ∧
    semi.stop = source.utf8ByteSize

theorem tokens_eq (source : String) : tokens source = (Scanner.start source.toList).tokensAhead.1 :=
  rfl

theorem faults_eq (source : String) :
    (TokenStream.ofSource source.toList).faults = (Scanner.start source.toList).tokensAhead.2 :=
  rfl

/-! ### Parts of a script -/

section Parts

variable {Γ : Context} {d : Nat} {T T₁ rest : List Token} {x : SyntaxTree}

/-- A script of one statement. -/
theorem exists_derives_statement (h : Derives .statements Γ d T [x] rest) :
    Derives .bareStatement Γ (d + 1) T [x] rest := by
  cases h with
  | statementsMore hx hrest =>
    cases hrest with
    | statementsEnd =>
      cases hx with
      | statement _ hx => exact hx

theorem exists_derives_expression
    (h : Derives .bareStatement Γ d T [node (.expressionStatement (some e))] rest) :
    ∃ T₁, startsExpressionStatement Γ T = true ∧ Derives .expression Γ d T [e] T₁ ∧
      Terminates T₁ rest := by
  cases h with
  | expressionStatement hstarts he hend => exact ⟨_, hstarts, he, hend⟩
  | blockStatement h => cases h
  | «variables» h => cases h
  | functionStatement _ h => cases h
  | classStatement h => cases h

theorem exists_derives_initializer {condition increment body : Option SyntaxTree}
    (h : Derives .bareStatement Γ d T [x] rest)
    (hx : x = node (.forStatement (some e) condition increment body)) :
    ∃ T₀ T₁, Derives .forInitializer Γ d T₀ [e] T₁ := by
  cases h with
  | forStatement _ _ hi =>
    injection hx with hx
    injection hx with he
    have hlist := hi.toList_head? rfl
    rw [he] at hlist
    exact ⟨_, _, hlist ▸ hi⟩
  | blockStatement h | «variables» h | functionStatement _ h | classStatement h =>
    cases h
    cases hx
  | _ => cases hx

/-- An expression before a semicolon at the end of a script ends before this semicolon. -/
theorem eq_of_terminates {semi last last₀ : Token}
    (he : Derives .expression Γ d (T ++ [semi, last]) [e] T₁) (hsemi : semi.kind = .semicolon)
    (hend : Terminates T₁ [last₀]) : T₁ = [semi, last] := by
  rcases hend with ⟨s, hs, rfl⟩ | ⟨⟨-, rfl⟩, -⟩
  · obtain ⟨p, hp⟩ := he.isSuffix
    have hlength := congrArg List.length hp
    exact (List.append_inj hp (by simpa using hlength)).2
  -- If no semicolon ended the statement, this one would be the last token of the expression.
  · rcases he.encloses rfl with heq | ⟨p, t, heq, ht⟩
    · simpa using congrArg List.length heq
    · have hsplit := List.append_inj' heq rfl
      obtain ⟨rfl, -⟩ := List.cons.inj hsplit.2
      exact absurd hsemi ht

theorem startsForExpression_of_startsExpressionStatement
    (h : startsExpressionStatement Γ T = true) :
    startsForExpression Γ T = true ∧ kindOf T ≠ .semicolon := by
  rw [startsExpressionStatement] at h
  rw [startsForExpression]
  revert h
  cases kindOf T <;> simp

end Parts

/-! ### The text in the head of a loop -/

/-- The tokens that stand behind the first part of the head of a loop, from `o` on. -/
def headEnd (o : Nat) : List Token :=
  [⟨.semicolon, o, ";", "", false⟩, ⟨.closeParen, o + 1, ")", "", false⟩,
    ⟨.semicolon, o + 2, ";", "", false⟩, .atEnd (o + 3)]

theorem tokensAhead_headEnd {s : Scanner} (hrest : s.rest = [';', ')', ';'])
    (hfaults : s.faults = #[]) : s.tokensAhead = (headEnd s.offset, #[]) := by
  obtain ⟨rest, o, t, faults⟩ := s
  obtain rfl : rest = _ := hrest
  obtain rfl : faults = _ := hfaults
  rfl

/-- The first two tokens of a loop. -/
theorem tokensAhead_for (y : List Char) :
    (Scanner.start ("for (".toList ++ y)).tokensAhead =
      (⟨.forKeyword, 0, "for", "for", false⟩ :: ⟨.openParen, 4, "(", "", false⟩ ::
        (Scanner.mk y 5 ⟨.openParen, 4, "(", "", false⟩ #[]).tokensAhead.1,
        (Scanner.mk y 5 ⟨.openParen, 4, "(", "", false⟩ #[]).tokensAhead.2) := by
  have hfor : (Scanner.start ("for (".toList ++ y)).scan =
      ⟨' ' :: '(' :: y, 3, ⟨.forKeyword, 0, "for", "for", false⟩, #[]⟩ := rfl
  have hopen : (Scanner.mk (' ' :: '(' :: y) 3 ⟨.forKeyword, 0, "for", "for", false⟩ #[]).scan =
      ⟨y, 5, ⟨.openParen, 4, "(", "", false⟩, #[]⟩ := rfl
  rw [Scanner.tokensAhead_of_ne (by rw [hfor]; exact nofun), hfor,
    Scanner.tokensAhead_of_ne (by rw [hopen]; exact nofun), hopen]

theorem tokens_for {T : List Token} {semi last : Token}
    (htokens : tokens (source ++ ";") = T ++ [semi, last])
    (hstop : semi.stop = (source ++ ";").utf8ByteSize)
    (hfaults : (TokenStream.ofSource (source ++ ";").toList).faults = #[]) :
    (TokenStream.ofSource ("for (" ++ source ++ ";;);").toList).faults = #[] ∧
      ∃ o, tokens ("for (" ++ source ++ ";;);") =
        ⟨.forKeyword, 0, "for", "for", false⟩ :: ⟨.openParen, 4, "(", "", false⟩ ::
          ((T ++ [semi]).map (Token.moved 5) ++ headEnd o) := by
  have htext : ("for (" ++ source ++ ";;);").toList =
      "for (".toList ++ ((source ++ ";").toList ++ [';', ')', ';']) := by
    simp
  have hends : EndsInSemicolon (source ++ ";").toList := by simp [EndsInSemicolon]
  have hwidth : Text.width (source ++ ";").toList = (source ++ ";").utf8ByteSize :=
    Text.width_toList _
  let s' : Scanner :=
    ⟨(source ++ ";").toList ++ [';', ')', ';'], 5, ⟨.openParen, 4, "(", "", false⟩, #[]⟩
  have hfollows : (Scanner.start (source ++ ";").toList).Follows 5 [';', ')', ';'] s' :=
    ⟨rfl, rfl, rfl, rfl⟩
  obtain ⟨s₁, hrest, hnone, heq⟩ := Scanner.tokensAhead_of_follows hfollows
    (Scanner.standsIn_start _) hends htokens (hstop.trans hwidth.symm) hfaults
  rw [tokensAhead_headEnd hrest hnone] at heq
  rw [tokens_eq, faults_eq, htext, tokensAhead_for, heq]
  exact ⟨rfl, _, rfl⟩

/-- The semicolon at the end of a script becomes the first one in the head of a loop. -/
def headRelocation (semi last : Token) (o : Nat) (hsemi : semi.kind = .semicolon)
    (hlast : last.kind = .endOfFile) : Relocation where
  old := [semi, last]
  new := semi.moved 5 :: headEnd o
  move := Token.moved 5
  look_move _ := ⟨rfl, rfl, rfl, rfl⟩
  kindOf_old := hsemi
  kindOf_new := hsemi
  isBroken_new := rfl
  not_arrow_old := by simp [hsemi, hlast]
  not_arrow_new := by simp [hsemi, headEnd, Token.moved, Token.atEnd]

/-- The loop that has the expression for the first part of its head, and nothing else. -/
def loopOf (e : SyntaxTree) : SyntaxTree :=
  node (.forStatement (some e) none none (some (node .emptyStatement)))

/-- The expression is read in the head of a loop if it exposes no operation with `in`. -/
theorem derives_for {T : List Token} {semi last : Token} {o : Nat}
    (hsemi : semi.kind = .semicolon) (hlast : last.kind = .endOfFile)
    (hstarts : startsExpressionStatement .outermost (T ++ [semi, last]) = true)
    (he : Derives .expression .outermost 1 (T ++ [semi, last]) [e] [semi, last])
    (hhides : ¬e.ExposesIn) {f p : Token} (hf : f.kind = .forKeyword) (hp : p.kind = .openParen) :
    Derives .bareStatement .outermost 1
      (f :: p :: ((T ++ [semi]).map (Token.moved 5) ++ headEnd o)) [loopOf e] [.atEnd (o + 3)] := by
  let m := headRelocation semi last o hsemi hlast
  have hmoved : m.apply (T ++ [semi, last]) = (T ++ [semi]).map (Token.moved 5) ++ headEnd o := by
    rw [show T ++ [semi, last] = T ++ m.old from rfl, m.apply_append]
    simp [m, headRelocation]
  have hsuffix : m.old <:+ T ++ [semi, last] := List.suffix_append T _
  have hfirst : Derives .expression (Context.insideForHead .outermost) 1
      (m.apply (T ++ [semi, last])) [e] (m.apply m.old) :=
    (he.relocate (m := m) List.suffix_rfl).2.insideForHead fun _ =>
      SyntaxTree.hideIn_singleton.2 hhides
  obtain ⟨hexpression, hsemicolon⟩ := startsForExpression_of_startsExpressionStatement hstarts
  rw [← m.startsForExpression_apply hsuffix] at hexpression
  rw [← m.kindOf_apply hsuffix] at hsemicolon
  rw [m.apply_old] at hfirst
  have hinitializer := Derives.forExpression hexpression hsemicolon hfirst
  rw [hmoved] at hinitializer
  exact .forStatement hf hp hinitializer hsemi (.noExpression rfl) rfl (.noExpression rfl) rfl
    (.statement (by decide) (.emptyStatement rfl))

/-- What is read as an expression is read as the same one in the head of a loop if and only if it
exposes no operation with `in`. -/
theorem readsAs_for_iff
    (h : ReadsAs file (source ++ ";") [node (.expressionStatement (some e))])
    (hend : EndsInMark (source ++ ";")) :
    ReadsAs file ("for (" ++ source ++ ";;);") [loopOf e] ↔ ¬e.ExposesIn := by
  constructor
  · intro hfor
    obtain ⟨-, last, hderives⟩ := readsAs_iff.1 hfor
    obtain ⟨T₀, T₁, hi⟩ := exists_derives_initializer (exists_derives_statement hderives) rfl
    have hhides : SyntaxTree.HideIn [e] := by
      cases hi with
      | forVariables he => exact he.hideIn rfl rfl
      | forExpression _ _ he => exact he.hideIn rfl rfl
    exact SyntaxTree.hideIn_singleton.1 hhides
  · intro hhides
    obtain ⟨hfaults, last₀, hderives⟩ := readsAs_iff.1 h
    obtain ⟨T, semi, last, htokens, hsemi, hstop⟩ := hend
    obtain ⟨hfaults', o, htokens'⟩ := tokens_for htokens hstop hfaults
    obtain ⟨T₁, hstarts, he, hterminates⟩ :=
      exists_derives_expression (exists_derives_statement hderives)
    have hlast : last.kind = .endOfFile := by
      obtain ⟨T₀, t, heq, ht, -⟩ := TokenStream.ended_ofSource (source ++ ";").toList
      obtain rfl : last = t := by simpa using congrArg List.getLast? (htokens.symm.trans heq)
      exact ht
    rw [htokens] at hstarts he
    obtain rfl : T₁ = [semi, last] := eq_of_terminates he hsemi hterminates
    refine readsAs_iff.2 ⟨hfaults', .atEnd (o + 3),
      .statementsMore (.statement (by decide) ?_) (.statementsEnd (.inr rfl))⟩
    rw [htokens']
    exact derives_for hsemi hlast hstarts he hhides rfl rfl

/-- The tree of an assignment to `x`. -/
def assigned (value : SyntaxTree) : SyntaxTree :=
  node (.binary (some (node (.identifier "x"))) .assign (some value))

/-- An operation with `in`. -/
def memberTest : SyntaxTree :=
  node (.binary (some (node (.identifier "a"))) .inKeyword (some (node (.identifier "b"))))

/-- Parentheses set the head aside, the values of objects do not. -/
theorem readsAs_for_iff_brackets :
    ReadsAs "a.js" ("for (" ++ "x = (a in b)" ++ ";;);")
        [loopOf (assigned (node (.parenthesized (some memberTest))))] ∧
      ReadsAs "a.js" ("x = \x7bk: a in b\x7d" ++ ";") [node (.expressionStatement (some
        (assigned (node (.objectLiteral [node (.propertyAssignment
          (some (node (.identifier "k"))) (some memberTest))])))))] ∧
      ¬ReadsAs "a.js" ("for (" ++ "x = \x7bk: a in b\x7d" ++ ";;);")
        [loopOf (assigned (node (.objectLiteral [node (.propertyAssignment
          (some (node (.identifier "k"))) (some memberTest))])))] := by
  have hparenthesized : EndsInMark ("x = (a in b)" ++ ";") :=
    ⟨(tokens "x = (a in b);").take 7, ⟨.semicolon, 12, ";", "", false⟩, .atEnd 13,
      by decide +kernel, rfl, rfl⟩
  have hobject : EndsInMark ("x = \x7bk: a in b\x7d" ++ ";") :=
    ⟨(tokens "x = \x7bk: a in b\x7d;").take 9, ⟨.semicolon, 15, ";", "", false⟩, .atEnd 16,
      by decide +kernel, rfl, rfl⟩
  have hreads : ReadsAs "a.js" ("x = \x7bk: a in b\x7d" ++ ";") [node (.expressionStatement (some
      (assigned (node (.objectLiteral [node (.propertyAssignment
        (some (node (.identifier "k"))) (some memberTest))])))))] :=
    ⟨by decide +kernel, rfl⟩
  refine ⟨(readsAs_for_iff ⟨by decide +kernel, rfl⟩ hparenthesized).2 ?_, hreads,
    (readsAs_for_iff hreads hobject).not.2 (not_not_intro ?_)⟩
  · simp [assigned, SyntaxTree.not_exposesIn_node, SyntaxTree.HideIn, ShapeOf.isIn,
      ShapeOf.openParts, ShapeOf.children]
  · exact .part (.tail _ (.head _)) (.part (.head _) (.part (.tail _ (.head _)) (.operation rfl)))

end Script

end FunctionNaming
