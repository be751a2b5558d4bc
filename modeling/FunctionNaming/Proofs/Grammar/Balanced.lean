import FunctionNaming.Proofs.Grammar.First

/-!
Phrases are balanced: a search for the mark that closes a group around a phrase passes over the
phrase. So the first token of an expression does not begin an arrow function, unless an arrow stands
behind the parentheses or the name that the expression begins with.
-/

namespace FunctionNaming

/-- Whether the kind neither opens nor closes a group, and is not the end. -/
def TokenKind.isPlain (k : TokenKind) : Bool := !k.opensGroup && !k.closesGroup && k != .endOfFile

namespace Grammar

variable {c : Category} {Γ : Context} {d depth : Nat} {T T' rest : List Token}
  {ts : List SyntaxTree} {t : Token}

/-! ### Tokens -/

theorem closing?_plain (h : t.kind.isPlain = true) (depth : Nat) (T : List Token) :
    closing? depth (t :: T) = closing? depth T := by
  simp only [TokenKind.isPlain, Bool.and_eq_true, Bool.not_eq_true', bne_iff_ne] at h
  simp [closing?, h]

theorem closing?_open (h : t.kind.opensGroup = true) (depth : Nat) (T : List Token) :
    closing? depth (t :: T) = closing? (depth + 1) T := by
  have hplain : t.kind ≠ .endOfFile ∧ t.kind.closesGroup = false := by
    constructor
    · intro heq
      rw [heq] at h
      cases h
    · revert h
      cases t.kind <;> decide
  simp [closing?, h, hplain]

theorem closing?_close (h : t.kind.closesGroup = true) (hdepth : 0 < depth) (T : List Token) :
    closing? (depth + 1) (t :: T) = closing? depth T := by
  have hplain : t.kind ≠ .endOfFile ∧ t.kind.opensGroup = false := by
    constructor
    · intro heq
      rw [heq] at h
      cases h
    · revert h
      cases t.kind <;> decide
  have hle : ¬depth = 0 := Nat.pos_iff_ne_zero.1 hdepth
  simp [closing?, h, hplain, hle]

theorem closing?_self (h : t.kind.closesGroup = true) (T : List Token) :
    closing? 1 (t :: T) = some (t :: T) := by
  have hend : t.kind ≠ .endOfFile := by
    intro heq
    rw [heq] at h
    cases h
  simp [closing?, h, hend]

theorem isPlain_of_isWord {k : TokenKind} (h : k.isWord = true) : k.isPlain = true := by
  cases k <;> first | rfl | cases h

theorem isPlain_of_operator {k : TokenKind} (h : k.isAssignment = true ∨ k.precedence?.isSome = true ∨
    k.isPrefixOperator = true ∨ k.isPostfixOperator = true ∨ (keywordShape? k).isSome = true) :
    k.isPlain = true := by
  cases k <;> first | rfl | (revert h; decide)

/-- A token that may be passed, and is plain. -/
theorem Accepts.closing?_eq {k : TokenKind} {present : Bool} (h : Accepts k present T T')
    (hk : k.isPlain = true) : ∀ depth, closing? depth T = closing? depth T' := by
  intro depth
  cases present with
  | false =>
    obtain ⟨-, rfl⟩ := h
    rfl
  | true =>
    obtain ⟨t, rfl, rfl⟩ := h
    exact closing?_plain hk depth T'

theorem Terminates.closing?_eq (h : Terminates T T') :
    ∀ depth, closing? depth T = closing? depth T' := by
  intro depth
  rcases h with h | ⟨h, -⟩
  · exact h.closing?_eq rfl depth
  · exact h.closing?_eq rfl depth

theorem closing?_tail {k : TokenKind} (h : kindOf T = k) (hk : k.isPlain = true) (depth : Nat) :
    closing? depth T = closing? depth T.tail := by
  cases T with
  | nil => rfl
  | cons t T => exact closing?_plain (by rw [show t.kind = k from h, hk]) depth T

theorem closing?_passStatic {b : Bool} (h : passStatic T = (b, T')) :
    ∀ depth, closing? depth T = closing? depth T' := by
  intro depth
  rw [passStatic] at h
  split at h <;> cases h
  · next hpass => exact closing?_tail (eq_of_beq (Bool.and_eq_true_iff.1 hpass).1) rfl depth
  · rfl

theorem closing?_passModifiers {b : Bool} {m : Modifiers} (h : passModifiers b T = (m, T')) :
    ∀ depth, closing? depth T = closing? depth T' := by
  intro depth
  have hasync : closing? depth T = closing? depth (passAsync T).2 := by
    rw [passAsync]
    split
    · next hpass => exact closing?_tail (eq_of_beq (Bool.and_eq_true_iff.1 hpass).1) rfl depth
    · rfl
  have hstar : closing? depth (passAsync T).2 = closing? depth (passStar (passAsync T).2).2 := by
    rw [passStar]
    split
    · next hpass => exact closing?_tail (eq_of_beq hpass) rfl depth
    · rfl
  rw [passModifiers] at h
  split at h
  · next hpass =>
    cases h
    exact closing?_tail (eq_of_beq (Bool.and_eq_true_iff.1 hpass).1) rfl depth
  · split at h
    · next hpass =>
      cases h
      exact closing?_tail (eq_of_beq (Bool.and_eq_true_iff.1 hpass).1) rfl depth
    · cases h
      exact hasync.trans hstar

/-! ### Phrases -/

section Phrases

attribute [local grind =] closing?_plain closing?_open closing?_close
attribute [local grind →] isWord_of_binds isPlain_of_isWord

/-- A search for what closes a group passes over a phrase. -/
theorem Derives.closing?_eq (h : Derives c Γ d T ts rest) (hdepth : 0 < depth) :
    closing? depth T = closing? depth rest := by
  have hoperator := @isPlain_of_operator
  have hvariable : ∀ keyword, (variableKind keyword).isPlain = true := fun keyword => by
    cases keyword <;> rfl
  have hopens : TokenKind.opensGroup .openParen = true ∧ TokenKind.opensGroup .openBracket = true ∧
    TokenKind.opensGroup .openBrace = true := ⟨rfl, rfl, rfl⟩
  have hcloses : TokenKind.closesGroup .closeParen = true ∧
    TokenKind.closesGroup .closeBracket = true ∧ TokenKind.closesGroup .closeBrace = true :=
    ⟨rfl, rfl, rfl⟩
  induction h generalizing depth
  case parameter ha _ _ ihn ihv => rw [ha.closing?_eq rfl, ihn hdepth, ihv hdepth]
  case function ha ht hs _ _ ihn ihs =>
    rw [ha.closing?_eq rfl, closing?_plain (ht ▸ rfl), hs.closing?_eq rfl, ihn hdepth, ihs hdepth]
  case arrow ha _ ht _ ihp ihb =>
    rw [ha.closing?_eq rfl, ihp hdepth, closing?_plain (ht ▸ rfl), ihb hdepth]
  case accessorMember hm _ _ ihn ihs => rw [closing?_passModifiers hm, ihn hdepth, ihs hdepth]
  case methodMember hm _ _ _ ihn ihs => rw [closing?_passModifiers hm, ihn hdepth, ihs hdepth]
  case valueMember hm _ ht _ ihn ihv =>
    rw [closing?_passModifiers hm, ihn hdepth, closing?_plain (ht ▸ rfl), ihv hdepth]
  case shorthandMember hm _ _ _ _ ihn => rw [closing?_passModifiers hm, ihn hdepth]
  case classAccessor hstatic hm _ _ ihn ihs =>
    rw [closing?_passStatic hstatic, closing?_passModifiers hm, ihn hdepth, ihs hdepth]
  case classConstructor hstatic hm _ _ _ _ ihn ihs =>
    rw [closing?_passStatic hstatic, closing?_passModifiers hm, ihn hdepth, ihs hdepth]
  case classMethod hstatic hm _ _ _ _ ihn ihs =>
    rw [closing?_passStatic hstatic, closing?_passModifiers hm, ihn hdepth, ihs hdepth]
  case classField hstatic hm _ _ _ hend ihn ihv =>
    rw [closing?_passStatic hstatic, closing?_passModifiers hm, ihn hdepth, ihv hdepth,
      hend.closing?_eq]
  case variableStatement _ hend ih => rw [ih hdepth, hend.closing?_eq]
  case defaultExpression _ _ _ hend ih => rw [ih hdepth, hend.closing?_eq]
  case returnStatement ht _ hend ih =>
    rw [closing?_plain (ht ▸ rfl), ih hdepth, hend.closing?_eq]
  case throwStatement ht _ hend ih =>
    rw [closing?_plain (ht ▸ rfl), ih hdepth, hend.closing?_eq]
  case expressionStatement _ _ hend ih => rw [ih hdepth, hend.closing?_eq]
  all_goals grind -linarith [TokenKind.isPlain, TokenKind.opensGroup, TokenKind.closesGroup]

end Phrases

/-! ### Arrows -/

/-- Whether the phrases of the category are operands of an assignment, or begin such. -/
def Category.isOperand : Category → Bool
  | .primary | .construction | .chain _ | .leftHandSide | .unary | .operands _ | .binary _
  | .conditional => true
  | _ => false

/-- That the tokens ahead make no arrow function of a name or a group before them. -/
structure HasNoArrow (Γ : Context) (T : List Token) : Prop where
  isArrowAt : isArrowAt T = false
  binds : Γ.binds (kindOf T) = false
  group : kindOf T = .openParen → isGroupBeforeArrow T = false

theorem hasNoArrow_of_kind {Γ : Context} {T : List Token} (harrow : kindOf T ≠ .arrow)
    (hbinds : Γ.binds (kindOf T) = false) (hparen : kindOf T ≠ .openParen) : HasNoArrow Γ T :=
  ⟨by simp [isArrowAt, harrow], hbinds, fun h => absurd h hparen⟩

/-- A group that is passed is followed by an arrow if the tokens behind it begin with one. -/
theorem isGroupBeforeArrow_eq {u : Token} (ht : t.kind.opensGroup = true) (hu : u.kind.closesGroup = true)
    (h : closing? 1 T = closing? 1 (u :: rest)) : isGroupBeforeArrow (t :: T) = isArrowAt rest := by
  rw [isGroupBeforeArrow, closing?_open ht, h, closing?_self hu]
  rfl

theorem Derives.isGroupBeforeArrow_arguments (h : Derives .arguments Γ d T ts rest) :
    kindOf T = .openParen ∧ isGroupBeforeArrow T = isArrowAt rest := by
  cases h with
  | arguments ht hlist hc =>
    exact ⟨ht, isGroupBeforeArrow_eq (ht ▸ rfl) (hc ▸ rfl) (hlist.closing?_eq Nat.one_pos)⟩

theorem startsArrow_of_startsFunction (h : startsFunction T = true) : startsArrow Γ T = false := by
  simp only [startsFunction, isAsyncFunction, Bool.or_eq_true, beq_iff_eq, Bool.and_eq_true,
    Bool.not_eq_true'] at h
  rcases h with h | ⟨h, hnext, hline⟩
  · simp [startsArrow, h, Context.binds, TokenKind.isContextual]
  · simp [startsArrow, h, hnext, hline, Context.binds, TokenKind.isContextual]

theorem startsArrow_of_kind {k : TokenKind} (h : kindOf T = k) (hbinds : Γ.binds k = false)
    (hparen : k ≠ .openParen) : startsArrow Γ T = false := by
  subst h
  have hasync : kindOf T ≠ .asyncKeyword := fun heq => by simp [heq, Context.binds, TokenKind.isContextual] at hbinds
  simp [startsArrow, hbinds]

/-- A name begins no arrow function where what follows it makes none of it. -/
theorem startsArrow_name (ht : Γ.binds t.kind = true) (h : HasNoArrow Γ rest) :
    startsArrow Γ (t :: rest) = false := by
  have hparen : t.kind ≠ .openParen := fun heq => by simp [heq, Context.binds, TokenKind.isContextual] at ht
  simp only [startsArrow, kindOf_cons, List.tail_cons]
  split
  · next heq => exact absurd heq hparen
  · by_cases heq : kindOf rest = .openParen
    · simp [heq, h.group heq]
    · simp [heq, h.binds]
  · simp [h.isArrowAt]

theorem binds_of_operator {k : TokenKind} (h : k.isAssignment = true ∨ k.precedence?.isSome = true ∨
    k.isPrefixOperator = true ∨ k.isPostfixOperator = true ∨ (keywordShape? k).isSome = true) :
    Γ.binds k = false ∧ k ≠ .openParen ∧ k ≠ .arrow := by
  have hparen : k ≠ .openParen := by
    rintro rfl
    revert h
    decide
  have harrow : k ≠ .arrow := by
    rintro rfl
    revert h
    decide
  refine ⟨?_, hparen, harrow⟩
  cases k <;> first | rfl | (exfalso; revert h; decide)

/-- What is no arrow function is none for the parser. -/
theorem Derives.startsArrow_eq_false (h : Derives c Γ d T ts rest) (hc : c.isOperand = true)
    (hrest : HasNoArrow Γ rest) : startsArrow Γ T = false := by
  induction h with
  | primaryFunction hstarts => exact startsArrow_of_startsFunction hstarts
  | primaryName hstarts hname =>
    cases hname with
    | name ht => exact startsArrow_name ht hrest
  | parenthesized ht he hclose =>
    have hgroup := isGroupBeforeArrow_eq (t := _) (by rw [ht]; rfl) (by rw [hclose]; rfl)
      (he.closing?_eq Nat.one_pos)
    simp [startsArrow, ht, hgroup, hrest.isArrowAt]
  | call _ has ih =>
    obtain ⟨hkind, hgroup⟩ := has.isGroupBeforeArrow_arguments
    refine ih hc ⟨by simp [isArrowAt, hkind], by rw [hkind]; rfl, fun _ => ?_⟩
    rw [hgroup, hrest.isArrowAt]
  | primaryClass h => exact startsArrow_of_kind (eq_of_beq (h.first rfl)) rfl (by decide)
  | primaryObject h => exact startsArrow_of_kind (eq_of_beq (h.first rfl)) rfl (by decide)
  | primaryLiteral h =>
    rcases Bool.or_eq_true_iff.1 (h.first rfl) with hk | hk
    · exact startsArrow_of_kind (eq_of_beq hk) rfl (by decide)
    · exact startsArrow_of_kind (eq_of_beq hk) rfl (by decide)
  | arrayLiteral ht => exact startsArrow_of_kind ht rfl (by decide)
  | new _ ht => exact startsArrow_of_kind ht rfl (by decide)
  | newCall _ ht => exact startsArrow_of_kind ht rfl (by decide)
  | primaryKeyword hk =>
    obtain ⟨hbinds, hparen, -⟩ := binds_of_operator (.inr (.inr (.inr (.inr (Option.isSome_of_eq_some hk)))))
    exact startsArrow_of_kind rfl hbinds hparen
  | prefixed _ ho =>
    obtain ⟨hbinds, hparen, -⟩ := binds_of_operator (.inr (.inr (.inl ho)))
    exact startsArrow_of_kind rfl hbinds hparen
  | chainFirst _ ih | chainNew _ ih | operand _ _ ih | operandsFirst _ ih | binary _ _ ih
  | noCondition _ _ ih | leftHandSide _ _ _ _ ih => exact ih rfl hrest
  | propertyAccess _ hp _ ih | elementAccess _ hp _ _ ih | conditional _ hp _ _ _ ih =>
    exact ih rfl (hasNoArrow_of_kind (by simp [hp]) (by rw [kindOf_cons, hp]; rfl) (by simp [hp]))
  | postfixed _ ho _ ih =>
    obtain ⟨hbinds, hparen, harrow⟩ := binds_of_operator (.inr (.inr (.inr (.inl ho))))
    exact ih rfl (hasNoArrow_of_kind harrow hbinds hparen)
  | operandsNext _ hprecedence _ _ ih =>
    obtain ⟨hbinds, hparen, harrow⟩ :=
      binds_of_operator (.inr (.inl (Option.isSome_of_eq_some hprecedence)))
    exact ih rfl (hasNoArrow_of_kind harrow hbinds hparen)
  | _ => cases hc

end Grammar

end FunctionNaming
