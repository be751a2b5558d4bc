import FunctionNaming.Proofs.Grammar.Progress

/-!
Phrases elsewhere. What a phrase is depends on its own tokens, apart from where they stand, and on
little of what follows it. So it stays a phrase, of the same trees, when its tokens are moved and one
end of the script that begins with a semicolon takes the place of another.
-/

namespace FunctionNaming.Grammar

open SyntaxTree (node)

/-- What is done to a script: all tokens before the `old` ones are moved, and these are replaced. -/
structure Relocation where
  old : List Token
  new : List Token
  move : Token → Token
  look_move : ∀ t, (move t).kind = t.kind ∧ (move t).value = t.value ∧ (move t).text = t.text ∧
    (move t).afterLineBreak = t.afterLineBreak
  kindOf_old : kindOf old = .semicolon
  kindOf_new : kindOf new = .semicolon
  isBroken_new : isBroken new = isBroken old
  not_arrow_old : ∀ t ∈ old, t.kind ≠ .arrow
  not_arrow_new : ∀ t ∈ new, t.kind ≠ .arrow

namespace Relocation

attribute [simp] kindOf_old kindOf_new isBroken_new

variable (m : Relocation) {T T' : List Token} {Γ : Context}

@[simp]
theorem kind_move (t : Token) : (m.move t).kind = t.kind := (m.look_move t).1

@[simp]
theorem afterLineBreak_move (t : Token) : (m.move t).afterLineBreak = t.afterLineBreak :=
  (m.look_move t).2.2.2

/-- The tokens ahead after the relocation. -/
def apply (T : List Token) : List Token := (T.take (T.length - m.old.length)).map m.move ++ m.new

theorem apply_append (T : List Token) : m.apply (T ++ m.old) = T.map m.move ++ m.new := by
  simp [apply]

theorem apply_old : m.apply m.old = m.new := m.apply_append []

theorem apply_cons {t : Token} (h : m.old <:+ T) : m.apply (t :: T) = m.move t :: m.apply T := by
  rw [apply, apply, List.length_cons, Nat.succ_sub h.length_le]
  rfl

theorem suffix_cons {t : Token} (h : m.old <:+ T) : m.old <:+ t :: T :=
  h.trans (List.suffix_cons t T)

/-- What ends with the old tokens are they, or begins with a token that is moved. -/
theorem eq_or_exists_cons (h : m.old <:+ T) :
    T = m.old ∨ ∃ t T', T = t :: T' ∧ m.old <:+ T' := by
  cases T with
  | nil => exact .inl (List.suffix_nil.1 h).symm
  | cons t T =>
    rcases List.suffix_cons_iff.1 h with h | h
    · exact .inl h.symm
    · exact .inr ⟨t, T, rfl, h⟩

/-- What is asked of the tokens ahead has the same answer if it has before the old and the new tokens,
and does not depend on where the first token stands. -/
theorem apply_eq {α : Type} {p : List Token → α} (h : m.old <:+ T) (hend : p m.new = p m.old)
    (hcons : ∀ t T, m.old <:+ T → p (m.move t :: m.apply T) = p (t :: T)) :
    p (m.apply T) = p T := by
  obtain rfl | ⟨t, T, rfl, hT⟩ := m.eq_or_exists_cons h
  · rwa [apply_old]
  · rw [m.apply_cons hT]
    exact hcons t T hT

/-! ### The first tokens -/

theorem kindOf_apply (h : m.old <:+ T) : kindOf (m.apply T) = kindOf T :=
  m.apply_eq h (by simp) fun t T _ => by simp

theorem isBroken_apply (h : m.old <:+ T) : isBroken (m.apply T) = isBroken T :=
  m.apply_eq h (by simp) fun t T _ => by simp

theorem endsStatement_apply (h : m.old <:+ T) : endsStatement (m.apply T) = endsStatement T := by
  simp [endsStatement, m.kindOf_apply h, m.isBroken_apply h]

theorem endsYieldAt_apply (h : m.old <:+ T) : endsYieldAt (m.apply T) = endsYieldAt T := by
  simp [endsYieldAt, m.kindOf_apply h, m.endsStatement_apply h]

theorem isArrowAt_apply (h : m.old <:+ T) : isArrowAt (m.apply T) = isArrowAt T := by
  simp [isArrowAt, m.kindOf_apply h, m.isBroken_apply h]

theorem startsFunction_apply (h : m.old <:+ T) : startsFunction (m.apply T) = startsFunction T := by
  refine m.apply_eq h ?_ fun t T h => ?_
  · rw [startsFunction, startsFunction, kindOf_old, kindOf_new]
    rfl
  · simp [startsFunction, isAsyncFunction, m.kindOf_apply h, m.isBroken_apply h]

theorem startsExpressionStatement_apply (h : m.old <:+ T) :
    startsExpressionStatement Γ (m.apply T) = startsExpressionStatement Γ T := by
  refine m.apply_eq h (by simp [startsExpressionStatement]) fun t T h => ?_
  simp [startsExpressionStatement, isAsyncFunction, m.kindOf_apply h, m.isBroken_apply h]

theorem startsForExpression_apply (h : m.old <:+ T) :
    startsForExpression Γ (m.apply T) = startsForExpression Γ T := by
  refine m.apply_eq h (by simp [startsForExpression]) fun t T h => ?_
  simp [startsForExpression, m.kindOf_apply h]

theorem isModifierAt_cons {t : Token} (h : m.old <:+ T) :
    isModifierAt (m.move t :: m.apply T) = isModifierAt (t :: T) := by
  simp [isModifierAt, m.kindOf_apply h]

/-! ### The search for an arrow -/

theorem isArrowAt_eq_false (h : ∀ t ∈ T, t.kind ≠ .arrow) : isArrowAt T = false := by
  cases T with
  | nil => rfl
  | cons t T => simp [isArrowAt, h t List.mem_cons_self]

/-- Where there are no arrows, none follows a group. -/
theorem any_closing?_eq_false (h : ∀ t ∈ T, t.kind ≠ .arrow) (depth : Nat) :
    (closing? depth T).any (fun T' => isArrowAt T'.tail) = false := by
  rw [Option.any_eq_false_iff_get]
  intro hsome
  have hsuffix := (closing?_eq_some (Option.some_get hsome).symm).1
  have harrow : isArrowAt ((closing? depth T).get hsome).tail = false :=
    isArrowAt_eq_false fun t ht => h t (hsuffix.subset (List.mem_of_mem_tail ht))
  simpa using harrow

/-- The search ends before the old tokens, or finds nothing in them and nothing in the new ones. -/
theorem any_closing?_apply (h : m.old <:+ T) (depth : Nat) :
    (closing? depth (m.apply T)).any (fun T' => isArrowAt T'.tail) =
      (closing? depth T).any (fun T' => isArrowAt T'.tail) := by
  induction T generalizing depth with
  | nil =>
    have hold := List.suffix_nil.1 h
    rw [← hold, apply_old, any_closing?_eq_false m.not_arrow_old,
      any_closing?_eq_false m.not_arrow_new]
  | cons t T ih =>
    rcases List.suffix_cons_iff.1 h with h | h
    · rw [← h, apply_old, any_closing?_eq_false m.not_arrow_old,
        any_closing?_eq_false m.not_arrow_new]
    · simp only [m.apply_cons h, closing?, m.kind_move]
      split
      · rfl
      · split
        · exact m.isArrowAt_apply h
        · split
          · exact ih h _
          · split
            · exact ih h _
            · exact ih h _

theorem isGroupBeforeArrow_apply (h : m.old <:+ T) :
    isGroupBeforeArrow (m.apply T) = isGroupBeforeArrow T := by
  have hany : ∀ T, isGroupBeforeArrow T = (closing? 0 T).any (fun T' => isArrowAt T'.tail) := by
    intro T
    rw [isGroupBeforeArrow]
    cases closing? 0 T <;> rfl
  rw [hany, hany, m.any_closing?_apply h]

theorem startsArrow_apply (h : m.old <:+ T) : startsArrow Γ (m.apply T) = startsArrow Γ T := by
  have hbinds : Γ.binds .semicolon = false := rfl
  have hgroup := m.isGroupBeforeArrow_apply h
  obtain rfl | ⟨t, T, rfl, hT⟩ := m.eq_or_exists_cons h
  · simp [apply_old, startsArrow, hbinds]
  rw [m.apply_cons hT] at hgroup ⊢
  have hgroup' := m.isGroupBeforeArrow_apply hT
  have hnext := m.isArrowAt_apply hT
  have hname : (Γ.binds (kindOf T) && isArrowAt (m.apply T).tail) =
      (Γ.binds (kindOf T) && isArrowAt T.tail) := by
    obtain rfl | ⟨u, T, rfl, hU⟩ := m.eq_or_exists_cons hT
    · simp [hbinds]
    · rw [m.apply_cons hU]
      simp [m.isArrowAt_apply hU]
  simp [startsArrow, m.kindOf_apply hT, m.isBroken_apply hT, hgroup, hgroup', hnext, hname]

/-! ### Tokens that are passed -/

theorem accepts_apply {k : TokenKind} {present : Bool} (h : Accepts k present T T')
    (hT' : m.old <:+ T') : m.old <:+ T ∧ Accepts k present (m.apply T) (m.apply T') := by
  refine ⟨hT'.trans h.isSuffix, ?_⟩
  cases present with
  | false =>
    obtain ⟨hne, rfl⟩ := h
    exact ⟨by rwa [m.kindOf_apply hT'], rfl⟩
  | true =>
    obtain ⟨t, ht, rfl⟩ := h
    exact ⟨m.move t, by rwa [m.kind_move], m.apply_cons hT'⟩

theorem terminates_apply (h : Terminates T T') (hT' : m.old <:+ T') :
    m.old <:+ T ∧ Terminates (m.apply T) (m.apply T') := by
  refine ⟨hT'.trans h.isSuffix, ?_⟩
  rcases h with h | ⟨h, hend⟩
  · exact .inl (m.accepts_apply h hT').2
  · obtain rfl : T' = T := h.2
    exact .inr ⟨(m.accepts_apply h hT').2, by rwa [m.endsStatement_apply hT']⟩

/-- A word that is passed under a condition that does not hold before a semicolon. -/
theorem pass_apply {c : List Token → Bool} {p : List Token → Bool × List Token}
    (h : m.old <:+ T) (hpass : ∀ T, p T = if c T then (true, T.tail) else (false, T))
    (hend : c m.old = false ∧ c m.new = false)
    (hcons : ∀ t T, m.old <:+ T → c (m.move t :: m.apply T) = c (t :: T)) :
    m.old <:+ (p T).2 ∧ p (m.apply T) = ((p T).1, m.apply (p T).2) := by
  obtain rfl | ⟨t, T, rfl, hT⟩ := m.eq_or_exists_cons h
  · simp [hpass, hend, apply_old]
  · rw [hpass, hpass, m.apply_cons hT, hcons t T hT]
    split
    · exact ⟨hT, rfl⟩
    · exact ⟨h, by rw [m.apply_cons hT]⟩

theorem passStatic_apply {b : Bool} (h : passStatic T = (b, T')) (hT' : m.old <:+ T') :
    m.old <:+ T ∧ passStatic (m.apply T) = (b, m.apply T') := by
  have hT := hT'.trans (isSuffix_passStatic h)
  have hpass := m.pass_apply hT (p := passStatic) (fun _ => rfl) (by simp) fun t T h => by
    simp [m.isModifierAt_cons h]
  rw [h] at hpass
  exact ⟨hT, hpass.2⟩

theorem passModifiers_apply {b : Bool} {x : Modifiers} (h : passModifiers b T = (x, T'))
    (hT' : m.old <:+ T') : m.old <:+ T ∧ passModifiers b (m.apply T) = (x, m.apply T') := by
  have hT := hT'.trans (isSuffix_passModifiers h)
  refine ⟨hT, ?_⟩
  have hasync := m.pass_apply hT (p := passAsync) (fun _ => rfl) (by simp) fun t T h => by
    simp [m.isModifierAt_cons h, m.isBroken_apply h]
  have hstar := m.pass_apply hasync.1 (p := passStar) (fun _ => rfl) (by simp) fun t T h => by
    simp
  obtain rfl | ⟨t, T, rfl, hU⟩ := m.eq_or_exists_cons hT
  · obtain ⟨rfl, rfl⟩ : _ ∧ m.old = T' := by
      simpa [passModifiers, passAsync, passStar] using h
    simp [passModifiers, passAsync, passStar, apply_old]
  · have happly := m.apply_cons (t := t) hU
    simp only [passModifiers, hasync.2, hstar.2]
    rw [happly]
    simp only [passModifiers, kindOf_cons, kind_move, m.isModifierAt_cons hU, List.tail_cons] at h ⊢
    by_cases hget : (t.kind == .getKeyword && isModifierAt (t :: T)) = true
    · simp only [hget, if_true] at h ⊢
      cases h
      rfl
    · by_cases hset : (t.kind == .setKeyword && isModifierAt (t :: T)) = true
      · simp only [hget, hset, Bool.false_eq_true, if_true, if_false] at h ⊢
        cases h
        rfl
      · simp only [hget, hset, Bool.false_eq_true, if_false] at h ⊢
        cases h
        rfl

end Relocation

/-! ### Phrases -/

section Phrases

variable {m : Relocation} {c : Category} {Γ : Context} {d : Nat} {T rest : List Token}
  {ts : List SyntaxTree}

open Relocation

attribute [local grind! .] look_move
attribute [local grind =] apply_cons kindOf_apply isBroken_apply endsStatement_apply
  endsYieldAt_apply startsFunction_apply startsArrow_apply startsExpressionStatement_apply
  startsForExpression_apply
attribute [local grind →] accepts_apply terminates_apply passStatic_apply passModifiers_apply
attribute [local grind ←] suffix_cons

/-- A phrase before the old tokens is a phrase of the same trees after the relocation. -/
theorem Derives.relocate (h : Derives c Γ d T ts rest) (hrest : m.old <:+ rest) :
    m.old <:+ T ∧ Derives c Γ d (m.apply T) ts (m.apply rest) := by
  induction h
  case function ha ht hs _ _ ihn ihsig =>
    obtain ⟨h₃, hsig'⟩ := ihsig hrest
    obtain ⟨h₂, hn'⟩ := ihn h₃
    obtain ⟨h₁, hs'⟩ := m.accepts_apply hs h₂
    obtain ⟨hT, ha'⟩ := m.accepts_apply ha (m.suffix_cons h₁)
    rw [m.apply_cons h₁] at ha'
    exact ⟨hT, .function ha' ((m.kind_move _).trans ht) hs' hn' hsig'⟩
  case forStatement ht ho _ hs₁ _ hs₂ _ hc _ ihi ihe ihu ihx =>
    obtain ⟨h₃, hx'⟩ := ihx hrest
    obtain ⟨h₂, hu'⟩ := ihu (m.suffix_cons h₃)
    obtain ⟨h₁, he'⟩ := ihe (m.suffix_cons h₂)
    obtain ⟨hT, hi'⟩ := ihi (m.suffix_cons h₁)
    rw [m.apply_cons h₁] at hi'
    rw [m.apply_cons h₂] at he'
    rw [m.apply_cons h₃] at hu'
    rw [m.apply_cons (m.suffix_cons hT), m.apply_cons hT]
    exact ⟨m.suffix_cons (m.suffix_cons hT), .forStatement ((m.kind_move _).trans ht)
      ((m.kind_move _).trans ho) hi' ((m.kind_move _).trans hs₁) he' ((m.kind_move _).trans hs₂)
      hu' ((m.kind_move _).trans hc) hx'⟩
  case word => grind -linarith [Derives.word]
  case name => grind -linarith [Derives.name]
  case declaredName => grind -linarith [Derives.declaredName]
  case noName => grind -linarith [Derives.noName]
  case string => grind -linarith [Derives.string]
  case number => grind -linarith [Derives.number]
  case literalName => grind -linarith [Derives.literalName]
  case wordName => grind -linarith [Derives.wordName]
  case computedName => grind -linarith [Derives.computedName]
  case noInitializer => grind -linarith [Derives.noInitializer]
  case initializer => grind -linarith [Derives.initializer]
  case restProperty => grind -linarith [Derives.restProperty]
  case shorthandBinding => grind -linarith [Derives.shorthandBinding]
  case namedBinding => grind -linarith [Derives.namedBinding]
  case keyedBinding => grind -linarith [Derives.keyedBinding]
  case restElement => grind -linarith [Derives.restElement]
  case elementBinding => grind -linarith [Derives.elementBinding]
  case boundName => grind -linarith [Derives.boundName]
  case objectPattern => grind -linarith [Derives.objectPattern]
  case arrayPattern => grind -linarith [Derives.arrayPattern]
  case declarator => grind -linarith [Derives.declarator]
  case lastDeclarator => grind -linarith [Derives.lastDeclarator]
  case moreDeclarators => grind -linarith [Derives.moreDeclarators]
  case variableList => grind -linarith [Derives.variableList]
  case parameter => grind -linarith [Derives.parameter]
  case listEnd => grind -linarith [Derives.listEnd]
  case listLast => grind -linarith [Derives.listLast]
  case listMore => grind -linarith [Derives.listMore]
  case listHole => grind -linarith [Derives.listHole]
  case statementsEnd => grind -linarith [Derives.statementsEnd]
  case statementsMore => grind -linarith [Derives.statementsMore]
  case block => grind -linarith [Derives.block]
  case signature => grind -linarith [Derives.signature]
  case groupParameters => grind -linarith [Derives.groupParameters]
  case nameParameter => grind -linarith [Derives.nameParameter]
  case arrowBlock => grind -linarith [Derives.arrowBlock]
  case arrowExpression => grind -linarith [Derives.arrowExpression]
  case arrow => grind -linarith [Derives.arrow]
  case spread => grind -linarith [Derives.spread]
  case spreadMember => grind -linarith [Derives.spreadMember]
  case accessorMember => grind -linarith [Derives.accessorMember]
  case methodMember => grind -linarith [Derives.methodMember]
  case valueMember => grind -linarith [Derives.valueMember]
  case shorthandMember => grind -linarith [Derives.shorthandMember]
  case objectLiteral => grind -linarith [Derives.objectLiteral]
  case classAccessor => grind -linarith [Derives.classAccessor]
  case classConstructor => grind -linarith [Derives.classConstructor]
  case classMethod => grind -linarith [Derives.classMethod]
  case classField => grind -linarith [Derives.classField]
  case classMembersEnd => grind -linarith [Derives.classMembersEnd]
  case classMembersSkip => grind -linarith [Derives.classMembersSkip]
  case classMembersMore => grind -linarith [Derives.classMembersMore]
  case noHeritage => grind -linarith [Derives.noHeritage]
  case heritage => grind -linarith [Derives.heritage]
  case classLike => grind -linarith [Derives.classLike]
  case sequenceFirst => grind -linarith [Derives.sequenceFirst]
  case sequenceNext => grind -linarith [Derives.sequenceNext]
  case expression => grind -linarith [Derives.expression]
  case yieldAlone => grind -linarith [Derives.yieldAlone]
  case yieldValue => grind -linarith [Derives.yieldValue]
  case yieldAll => grind -linarith [Derives.yieldAll]
  case noCondition => grind -linarith [Derives.noCondition]
  case conditional => grind -linarith [Derives.conditional]
  case assignmentYield => grind -linarith [Derives.assignmentYield]
  case assignmentArrow => grind -linarith [Derives.assignmentArrow]
  case noAssignment => grind -linarith [Derives.noAssignment]
  case assignment => grind -linarith [Derives.assignment]
  case operandsFirst => grind -linarith [Derives.operandsFirst]
  case operandsNext => grind -linarith [Derives.operandsNext]
  case binary => grind -linarith [Derives.binary]
  case prefixed => grind -linarith [Derives.prefixed]
  case postfixed => grind -linarith [Derives.postfixed]
  case operand => grind -linarith [Derives.operand]
  case primaryFunction => grind -linarith [Derives.primaryFunction]
  case primaryClass => grind -linarith [Derives.primaryClass]
  case parenthesized => grind -linarith [Derives.parenthesized]
  case arrayLiteral => grind -linarith [Derives.arrayLiteral]
  case primaryObject => grind -linarith [Derives.primaryObject]
  case primaryKeyword => grind -linarith [Derives.primaryKeyword]
  case primaryLiteral => grind -linarith [Derives.primaryLiteral]
  case primaryName => grind -linarith [Derives.primaryName]
  case elementSpread => grind -linarith [Derives.elementSpread]
  case element => grind -linarith [Derives.element]
  case arguments => grind -linarith [Derives.arguments]
  case chainFirst => grind -linarith [Derives.chainFirst]
  case chainNew => grind -linarith [Derives.chainNew]
  case propertyAccess => grind -linarith [Derives.propertyAccess]
  case elementAccess => grind -linarith [Derives.elementAccess]
  case call => grind -linarith [Derives.call]
  case leftHandSide => grind -linarith [Derives.leftHandSide]
  case new => grind -linarith [Derives.new]
  case newCall => grind -linarith [Derives.newCall]
  case variableStatement => grind -linarith [Derives.variableStatement]
  case noReturnValue => grind -linarith [Derives.noReturnValue]
  case returnValue => grind -linarith [Derives.returnValue]
  case noAlternative => grind -linarith [Derives.noAlternative]
  case alternative => grind -linarith [Derives.alternative]
  case noForInitializer => grind -linarith [Derives.noForInitializer]
  case forVariables => grind -linarith [Derives.forVariables]
  case forExpression => grind -linarith [Derives.forExpression]
  case noExpression => grind -linarith [Derives.noExpression]
  case expressionBefore => grind -linarith [Derives.expressionBefore]
  case exportVariables => grind -linarith [Derives.exportVariables]
  case exportFunction => grind -linarith [Derives.exportFunction]
  case exportClass => grind -linarith [Derives.exportClass]
  case defaultFunction => grind -linarith [Derives.defaultFunction]
  case defaultClass => grind -linarith [Derives.defaultClass]
  case defaultExpression => grind -linarith [Derives.defaultExpression]
  case blockStatement => grind -linarith [Derives.blockStatement]
  case emptyStatement => grind -linarith [Derives.emptyStatement]
  case «variables» => grind -linarith [Derives.«variables»]
  case functionStatement => grind -linarith [Derives.functionStatement]
  case classStatement => grind -linarith [Derives.classStatement]
  case ifStatement => grind -linarith [Derives.ifStatement]
  case whileStatement => grind -linarith [Derives.whileStatement]
  case returnStatement => grind -linarith [Derives.returnStatement]
  case throwStatement => grind -linarith [Derives.throwStatement]
  case exportDefault => grind -linarith [Derives.exportDefault]
  case exportDeclaration => grind -linarith [Derives.exportDeclaration]
  case expressionStatement => grind -linarith [Derives.expressionStatement]
  case statement => grind -linarith [Derives.statement]

end Phrases

end FunctionNaming.Grammar
