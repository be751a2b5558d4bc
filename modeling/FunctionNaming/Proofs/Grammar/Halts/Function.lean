import FunctionNaming.Proofs.Grammar.Legible
import FunctionNaming.Proofs.Grammar.Price

/-!
What the rules of the grammar cost. A rule that begins with a token that is there passes it at once,
and the token pays for all that follows. Any other rule refers to a tighter one first, and its price
is that of the tighter one and a little more. So prices are numbers, and no rule is ever cut off.
-/

namespace FunctionNaming.Grammar

/-- How many tighter rules follow one another at most before a rule passes a token. -/
@[simp]
def Rule.rank : Rule → Nat
  | .statement => 5
  | .assignment => 4
  | .binary _ => 3
  | .unary => 2
  | .leftHandSide => 1
  | .construction => 0
  | .bindingName => 0

/-- What a rule costs at most, beyond the tokens that it passes. -/
@[simp]
def Rule.price : Rule → ℤ
  | .statement => 50
  | .assignment => 37
  | .binary _ => 29
  | .unary => 25
  | .leftHandSide => 21
  | .construction => 17
  | .bindingName => 5

/-- That `parse` can be used for every rule for which enough references are left. -/
def Callable (n m : Nat) (parse : Rule → Parser Slot) : Prop :=
  ∀ (rule : Rule) {r : Nat} {s : State}, rule.rank < r → s.Ready n m r →
    Affords n (parse rule) s fun _ => rule.price

variable {n m r : Nat} {s s' : State}

/-! ### Progress -/

/-- Where nothing has been passed, everything ahead is as before. -/
theorem State.Keeps.passes_or_stays (h : s.Keeps s') :
    s'.remaining < s.remaining ∨ s'.upcoming = s.upcoming ∧ s'.cursor = s.cursor := by
  have hcursor := h.cursor
  rcases Nat.lt_or_eq_of_le h.remaining_le with hlt | heq
  · exact .inl hlt
  · refine .inr ⟨h.upcoming.eq_of_length heq, ?_⟩
    rw [State.remaining, State.remaining] at heq
    omega

/-- A part that is followed by moving past a token, if none has been passed yet, passes a token. -/
theorem remaining_lt_of_skips {s₁ s₂ : State} (hs : s.Ready n m r)
    (hk : kindOf s.upcoming ≠ .endOfFile) (h₁ : s.Keeps s₁) (h₂ : s₁.Keeps s₂)
    (hskips : s₁.upcoming = s.upcoming → s₁.cursor = s.cursor →
      ∃ s' : State, s'.upcoming = s₁.upcoming ∧ s₂ = s'.advance) : s₂.remaining < s.remaining := by
  rcases h₁.passes_or_stays with hlt | ⟨hupcoming, hcursor⟩
  · exact Nat.lt_of_le_of_lt h₂.remaining_le hlt
  · obtain ⟨s', hs', rfl⟩ := hskips hupcoming hcursor
    rw [hupcoming] at hs'
    have hsame : s'.remaining = s.remaining := congrArg List.length hs'
    have hskipped := State.remaining_advance_lt (hs' ▸ hs.1) (hs' ▸ hk)
    omega

/-! ### Names and literals -/

theorem affords_finish (start : Nat) (shape : Shape) {x : ℤ} (hx : 1 ≤ x) :
    Affords n (finish start shape) s fun _ => x :=
  (looks_finish start shape).affords fun _ => hx

/-- A node is the last thing that is made. -/
theorem affords_node (start : Nat) (shape : Shape) {α : Type} {g : NodeId → α} {x : α → ℤ}
    (h : ∀ node, 1 ≤ x (g node)) : Affords n (do return g (← finish start shape)) s x :=
  (looks_finish start shape).bind fun node _ _ => .pure (Int.sub_nonneg_of_le (h node))

theorem ne_endOfFile_of_isWord {k : TokenKind} (h : k.isWord = true) : k ≠ .endOfFile := by
  rintro rfl
  exact absurd h (by decide)

theorem affords_propertyWord_of_isWord (hs : s.Ready n m r)
    (hk : (kindOf s.upcoming).isWord = true) : Affords n propertyWord s fun _ => 3 - gain := by
  refine tells_isPropertyWord.bind (.ite (fun _ => ?_) fun h => absurd hk h)
  refine (tells_inspect _).bind ?_
  refine (affords_advance hs (ne_endOfFile_of_isWord hk)).bind hs fun _ s hs => ?_
  exact affords_finish _ _ (by simp)

theorem affords_propertyWord (hs : s.Ready n m r) : Affords n propertyWord s fun _ => 3 := by
  by_cases hk : (kindOf s.upcoming).isWord = true
  · exact (affords_propertyWord_of_isWord hs hk).mono (by simp)
  · refine tells_isPropertyWord.bind (.ite (fun h => absurd h hk) fun _ => ?_)
    refine (looks_complain _).bind fun _ s _ => ?_
    exact looks_missingIdentifier.affords (by simp)

theorem affords_identifier_of_binds (hs : s.Ready n m r)
    (hk : s.context.binds (kindOf s.upcoming) = true) :
    Affords n identifier s fun _ => 4 - gain := by
  refine tells_isIdentifier.bind (.ite (fun _ => ?_) fun h => absurd hk h)
  exact (affords_propertyWord_of_isWord hs (isWord_of_binds hk)).mono (by simp)

theorem affords_identifier (hs : s.Ready n m r) : Affords n identifier s fun _ => 4 := by
  refine tells_isIdentifier.bind (.ite (fun _ => ?_) fun _ => ?_)
  · exact (affords_propertyWord hs).mono (by simp)
  · exact (looks_complain _).bind fun _ s _ => looks_missingIdentifier.affords (by simp)

theorem affords_declaredName (hs : s.Ready n m r) (required : Bool) :
    Affords n (declaredName required) s fun _ => 5 := by
  refine tells_isIdentifier.bind (.ite (fun _ => ?_) fun _ => .ite (fun _ => ?_) fun _ => ?_)
  · exact .map ((affords_identifier hs).mono (by simp))
  · exact (looks_complain _).bind fun _ s _ => .pure (by simp)
  · exact .pure (by simp)

theorem affords_literal (hs : s.Ready n m r) (hk : kindOf s.upcoming ≠ .endOfFile) :
    Affords n literal s fun _ => 2 - gain := by
  refine (tells_inspect _).bind ((affords_advance hs hk).bind hs fun _ s hs => ?_)
  split
  · exact affords_finish _ _ (by simp)
  · exact affords_finish _ _ (by simp)

theorem affords_keywordExpression (hs : s.Ready n m r) (hk : kindOf s.upcoming ≠ .endOfFile)
    (shape : Shape) : Affords n (keywordExpression shape) s fun _ => 2 - gain := by
  refine tells_position.bind ((affords_advance hs hk).bind hs fun _ s hs => ?_)
  exact affords_finish _ _ (by simp)

theorem looks_variableKeyword : Looks n variableKeyword s := by
  refine ⟨?_, (Takes.mono ?_ (sixteen_le_unitSteps n) : Takes variableKeyword s (unitSteps n))⟩
  · rw [variableKeyword, Parser.run_bind, run_kind]
    cases kindOf s.upcoming <;> rfl
  · refine ((takes_kind s).bind fun k s' _ => ?_).mono (by decide : 0 + 1 ≤ 16)
    split
    · exact Takes.pure _ _
    · exact Takes.pure _ _
    · exact Takes.pure _ _

/-- A word that is one of a rule's words only before what `test` looks for. -/
theorem Affords.lookFor {test : Parser Bool} {p q : Parser Slot} {y : ℤ} {k k' : TokenKind}
    (hs : s.Ready n m r) (htest : Looks n test s) (hk : kindOf s.upcoming = k)
    (hp : ∀ s', s'.Ready n m r → kindOf s'.upcoming = k' → Affords n p s' fun _ => y - 1)
    (hq : ∀ s', s'.Ready n m r → kindOf s'.upcoming = k → Affords n q s' fun _ => y - 1) :
    Affords n (do if k == k' && (← test) then p else q) s fun _ => y := by
  refine htest.bind fun b s' hupcoming => ?_
  have hs' := hs.of_upcoming hupcoming
  refine .ite (fun hfound => hp s' hs' ?_) fun _ => hq s' hs' (hupcoming ▸ hk)
  rw [hupcoming, hk]
  exact eq_of_beq (Bool.and_eq_true_iff.1 hfound).1

/-! ### Modifiers -/

theorem affords_staticModifier (hs : s.Ready n m r) :
    Affords n staticModifier s fun _ => 2 := by
  refine (tells_isAt _).bind (.ite (fun hstatic => ?_) fun _ => .pure (by simp))
  refine looks_isModifier.bind fun b s' hupcoming => .ite (fun _ => ?_) fun _ => .pure (by simp)
  have hk : kindOf s'.upcoming ≠ .endOfFile := by
    rw [hupcoming, eq_of_beq hstatic]
    decide
  have hs' := hs.of_upcoming hupcoming
  exact (affords_advance hs' hk).bind hs' fun _ s hs => .pure (by simp)

theorem affords_asyncModifier (hs : s.Ready n m r) : Affords n asyncModifier s fun _ => 2 := by
  refine (tells_isAt _).bind (.ite (fun hasync => ?_) fun _ => .pure (by simp))
  refine looks_isAsyncModifier.bind fun b s' hupcoming => .ite (fun _ => ?_) fun _ => .pure (by simp)
  have hk : kindOf s'.upcoming ≠ .endOfFile := by
    rw [hupcoming, eq_of_beq hasync]
    decide
  have hs' := hs.of_upcoming hupcoming
  exact (affords_advance hs' hk).bind hs' fun _ s hs => .pure (by simp)

theorem affords_accessorModifier (hs : s.Ready n m r) :
    Affords n accessorModifier s fun _ => 2 := by
  have hrole : ∀ role : AccessorRole, kindOf s.upcoming ≠ .endOfFile → Affords n (do
      if ← isModifier then
        advance
        return some role
      return none) s fun _ => 1 := by
    intro role hk
    refine looks_isModifier.bind fun b s' hupcoming => .ite (fun _ => ?_) fun _ => .pure (by simp)
    have hs' := hs.of_upcoming hupcoming
    exact (affords_advance hs' (hupcoming ▸ hk)).bind hs' fun _ s hs => .pure (by simp)
  refine tells_kind.bind ?_
  split
  · next hk => exact (hrole .getter (by simp [hk])).mono (by simp)
  · next hk => exact (hrole .setter (by simp [hk])).mono (by simp)
  · exact .pure (by simp)

theorem affords_modifiers (hs : s.Ready n m r) (isStatic : Bool) :
    Affords n (modifiers isStatic) s fun _ => 5 := by
  refine (affords_accessorModifier hs).bind hs fun role s hs => ?_
  cases role with
  | some role => exact .pure (by simp)
  | none =>
    refine (affords_asyncModifier hs).bind hs fun isAsync s hs => ?_
    exact (affords_accept _).bind hs fun _ s hs => .pure (by simp)

section

variable {parse : Rule → Parser Slot} (hparse : Callable n m parse)

include hparse

/-- The name of a member is a token, if it is there. -/
theorem affords_memberName (hs : s.Ready n m r) :
    Affords n (memberName parse) s fun o =>
      if o.isSome then Rule.assignment.price + 5 - gain else 3 := by
  refine tells_kind.bind ?_
  split
  · next hk => exact .map ((affords_literal hs (by simp [hk])).mono (by simp))
  · next hk => exact .map ((affords_literal hs (by simp [hk])).mono (by simp))
  · next hk =>
    refine tells_position.bind (.pass hs (affords_advance hs (by simp [hk])) (by simp) ?_)
    intro _ s hs
    refine (hparse .assignment (by simp) hs).bind hs fun expression s hs => ?_
    refine (affords_expect _).bind hs fun _ s hs => ?_
    exact .map (affords_finish _ _ (by simp))
  · refine tells_isPropertyWord.bind (.ite (fun hk => ?_) fun _ => ?_)
    · exact .map ((affords_propertyWord_of_isWord hs hk).mono (by simp))
    · exact (looks_complain _).bind fun _ s _ => .pure (by simp)

/-! ### Bindings -/

theorem affords_initializer (hs : s.Ready n m r) :
    Affords n (initializer parse) s fun _ => 1 := by
  refine .accept hs (by decide) (fun s hs => ?_) fun _ => .pure (by simp)
  exact (hparse .assignment (by simp) hs).mono (by simp)

theorem affords_propertyBinding (hs : s.Ready n m 6) :
    Affords n (propertyBinding parse) s fun _ => 11 := by
  refine tells_isIdentifier.bind (.ite (fun _ => ?_) fun _ => ?_)
  · refine (affords_identifier hs).bind hs fun first s hs => ?_
    refine .accept hs (by decide) (fun s hs => ?_) fun _ => .pure (by simp)
    exact (hparse .bindingName (by simp) hs).bind hs fun name s hs => .pure (by simp)
  · have hname : Affords n (memberName parse) s fun _ => 3 :=
      (affords_memberName hparse hs).mono fun o => by cases o <;> simp
    refine hname.bind hs fun property s hs => (affords_expect _).bind hs fun _ s hs => ?_
    exact (hparse .bindingName (by simp) hs).bind hs fun name s hs => .pure (by simp)

theorem affords_objectPatternElement (hs : s.Ready n m 6) :
    Affords n (objectPatternElement parse) s fun _ => 15 := by
  refine tells_position.bind (.accept hs (by decide) (fun s hs => ?_) fun _ => ?_)
  · exact (affords_identifier hs).bind hs fun name s hs => affords_finish _ _ (by simp)
  · refine (affords_propertyBinding hparse hs).bind hs fun ⟨property, name⟩ s hs => ?_
    refine (affords_initializer hparse hs).bind hs fun value s hs => ?_
    exact affords_finish _ _ (by simp)

theorem affords_arrayPatternElement (hs : s.Ready n m 6) :
    Affords n (arrayPatternElement parse) s fun _ => 9 := by
  refine tells_position.bind ((affords_accept _).bind hs fun isRest s hs => ?_)
  refine (hparse .bindingName (by simp) hs).bind hs fun name s hs => ?_
  cases isRest with
  | true => exact affords_finish _ _ (by simp)
  | false =>
    exact (affords_initializer hparse hs).bind hs fun value s hs => affords_finish _ _ (by simp)

theorem affords_objectPattern (hs : s.Ready n m r) (hk : kindOf s.upcoming = .openBrace) :
    Affords n (objectPattern parse) s fun _ => 0 := by
  refine tells_position.bind (.pass hs (affords_expect_of_eq hs (by decide) hk) (by simp) ?_)
  intro _ s hs
  refine (Affords.commaList hs (by decide) (by decide) fun s hs =>
    .map (affords_objectPatternElement hparse hs)).bind hs fun elements s hs => ?_
  refine (affords_expect _).bind hs fun _ s hs => affords_finish _ _ (by simp)

theorem affords_arrayPattern (hs : s.Ready n m r) (hk : kindOf s.upcoming = .openBracket) :
    Affords n (arrayPattern parse) s fun _ => 0 := by
  refine tells_position.bind (.pass hs (affords_expect_of_eq hs (by decide) hk) (by simp) ?_)
  intro _ s hs
  refine (Affords.commaListWithHoles hs (by decide) (by decide) fun s hs =>
    .map (affords_arrayPatternElement hparse hs)).bind hs fun elements s hs => ?_
  refine (affords_expect _).bind hs fun _ s hs => affords_finish _ _ (by simp)

theorem affords_bindingName (hs : s.Ready n m r) :
    Affords n (bindingName parse) s fun _ => Rule.bindingName.price := by
  refine tells_kind.bind ?_
  split
  · next hk => exact (affords_objectPattern hparse hs hk).mono (by simp)
  · next hk => exact (affords_arrayPattern hparse hs hk).mono (by simp)
  · exact (affords_identifier hs).mono (by simp)

theorem affords_declarator (hr : 0 < r) (hs : s.Ready n m r) :
    Affords n (declarator parse) s fun _ => 8 := by
  refine tells_position.bind ((hparse .bindingName hr hs).bind hs fun name s hs => ?_)
  exact (affords_initializer hparse hs).bind hs fun value s hs => affords_finish _ _ (by simp)

theorem affords_declarators (hr : 0 < r) (hs : s.Ready n m r) :
    Affords n (declarators parse) s fun _ => 11 := by
  refine (Affords.collectTokens (y := 10) hs fun s hs => ?_).mono (by simp)
  refine tells_startsBinding.bind (.ite (fun _ => ?_) fun _ => ?_)
  · refine (affords_declarator hparse hr hs).bind hs fun bound s hs => ?_
    exact .accept hs (by decide) (fun s hs => .pure (by simp)) fun _ => .pure (by simp)
  · exact (looks_complain _).bind fun _ s _ => .pure (by simp)

/-- A list of variables begins with a word that is there. -/
theorem affords_variableList (hs : s.Ready n m r) (hk : kindOf s.upcoming ≠ .endOfFile) :
    Affords n (variableList parse) s fun _ => 14 - gain := by
  refine tells_position.bind (looks_variableKeyword.bind fun keyword s' hupcoming => ?_)
  have hs' := hs.of_upcoming hupcoming
  refine .pass hs' (affords_advance hs' (hupcoming ▸ hk)) (by simp) fun _ s hs => ?_
  refine (affords_declarators hparse (by decide) hs).bind hs fun bound s hs => ?_
  exact affords_finish _ _ (by simp)

theorem affords_parameter (hs : s.Ready n m 6) : Affords n (parameter parse) s fun _ => 9 := by
  refine tells_position.bind ((affords_accept _).bind hs fun isRest s hs => ?_)
  refine (hparse .bindingName (by simp) hs).bind hs fun name s hs => ?_
  exact (affords_initializer hparse hs).bind hs fun value s hs => affords_finish _ _ (by simp)

theorem affords_parameterList (hs : s.Ready n m 6) :
    Affords n (parameterList parse) s fun _ => 12 :=
  .commaList hs (by decide) (by decide) fun _ hs => .map (affords_parameter hparse hs)

/-! ### Functions -/

theorem affords_listedStatement (hr : 5 < r) (hs : s.Ready n m r) :
    Affords n (listedStatement parse) s fun _ => 55 := by
  refine (tells_inspect _).bind ((hparse .statement hr hs).bind hs fun statement s hs => ?_)
  refine (tells_inspect _).bind (tells_kind.bind (.ite (fun _ => ?_) fun _ => .pure (by simp)))
  refine (looks_complain _).bind fun _ s' hupcoming => ?_
  refine affords_advance_anywhere.bind (hs.of_upcoming hupcoming) fun _ s hs => .pure (by simp)

omit hparse in
/-- Before the end of the script either the statement passes a token, or the first token that is
left is skipped. -/
theorem remaining_listedStatement_lt (hs : s.Ready n m r) (hk : kindOf s.upcoming ≠ .endOfFile) :
    ((listedStatement parse).run s).2.remaining < s.remaining := by
  have hkeeps := (parse .statement).keeps s
  generalize hs₁ : ((parse .statement).run s).2 = s₁ at hkeeps
  have hrun : (listedStatement parse).run s =
      Parser.run (if s₁.cursor == s.cursor && kindOf s₁.upcoming != .endOfFile then do
          complain .statementExpected
          advance
          return ((parse .statement).run s).1
        else return ((parse .statement).run s).1) s₁ := by
    subst hs₁
    rfl
  -- Where the statement is missing, the comparison of the cursors shows it.
  refine remaining_lt_of_skips hs hk hkeeps (hrun ▸ Parser.keeps _ s₁) fun hupcoming hcursor => ?_
  refine ⟨s₁.complain .statementExpected, (looks_complain (n := n) _).1, ?_⟩
  rw [hrun, if_pos (by simp [hupcoming, hcursor, hk])]
  rfl

theorem affords_statementList (hr : 5 < r) (hs : s.Ready n m r) :
    Affords n (statementList parse) s fun _ => 58 := by
  refine (Affords.collect (x := 56) (y := 1) hs (by decide) (by decide) (fun s hs => ?_)
    fun s hs hmore => ?_).mono (by simp)
  · refine (tells_isAtOrEnd _).bind (.ite (fun _ => .pure (by simp)) fun _ => ?_)
    exact (affords_listedStatement hparse hr hs).bind hs fun statement s hs => .pure (by simp)
  · rw [Parser.run_bind, run_isAtOrEnd] at hmore ⊢
    split at hmore
    · simp at hmore
    · next hend =>
      rw [if_neg hend]
      exact remaining_listedStatement_lt hs fun hk => hend (by simp [hk])

theorem affords_block (hr : 5 < r) (hs : s.Ready n m r) :
    Affords n (block parse) s fun _ => 65 := by
  refine .nested hs (by decide) fun s _ hs => tells_position.bind ?_
  refine (affords_expect _).bind hs fun _ s hs => ?_
  refine (affords_statementList hparse hr hs).bind hs fun statements s hs => ?_
  refine (affords_expect _).bind hs fun _ s hs => ?_
  exact .map (affords_finish _ _ (by simp))

/-- A block that is there begins with a token. -/
theorem affords_block_of_eq (hs : s.Ready n m r) (hk : kindOf s.upcoming = .openBrace) :
    Affords n (block parse) s fun _ => 2 := by
  refine .nested hs (by decide) fun s hupcoming hs => tells_position.bind ?_
  refine .pass hs (affords_expect_of_eq hs (by decide) (hupcoming ▸ hk)) (by simp) fun _ s hs => ?_
  refine (affords_statementList hparse (by decide) hs).bind hs fun statements s hs => ?_
  refine (affords_expect _).bind hs fun _ s hs => ?_
  exact .map (affords_finish _ _ (by simp))

theorem affords_signatureAndBody (hs : s.Ready n m 6) (isAsync isGenerator : Bool) :
    Affords n (signatureAndBody parse isAsync isGenerator) s fun _ => 81 := by
  refine .withContext hs fun s _ hs => (affords_expect _).bind hs fun _ s hs => ?_
  refine (affords_parameterList hparse hs).bind hs fun parameters s hs => ?_
  refine (affords_expect _).bind hs fun _ s hs => ?_
  exact (affords_block hparse (by decide) hs).bind hs fun body s hs => .pure (by simp)

/-- A function begins with its word or with the word before it. -/
theorem affords_functionDeclaration (hs : s.Ready n m r)
    (hk : kindOf s.upcoming = .functionKeyword ∨ kindOf s.upcoming = .asyncKeyword)
    (nameRequired : Bool) :
    Affords n (functionDeclaration parse nameRequired) s fun _ => 0 := by
  have hrest : ∀ (start : Nat) (isAsync : Bool) (s : State), s.Ready n m 6 → Affords n (do
      let isGenerator ← accept .star
      let name ← declaredName nameRequired
      let signature ← signatureAndBody parse isAsync isGenerator
      finish start (.function .declaration
        ⟨isAsync, isGenerator, name, signature.1, signature.2⟩)) s
        fun _ => 88 := by
    intro start isAsync s hs
    refine (affords_accept _).bind hs fun isGenerator s hs => ?_
    refine (affords_declaredName hs nameRequired).bind hs fun name s hs => ?_
    refine (affords_signatureAndBody hparse hs _ _).bind hs fun signature s hs => ?_
    exact affords_finish _ _ (by simp)
  refine tells_position.bind (.accept hs (by decide) (fun s hs => ?_) fun hne => ?_)
  · exact (affords_expect _).bind hs fun _ s hs => (hrest _ _ s hs).mono (by simp)
  · refine .pass hs (affords_expect_of_eq hs (by decide) (hk.resolve_right hne)) (by simp) ?_
    exact fun _ s hs => (hrest _ _ s hs).mono (by simp)

theorem affords_functionExpression (hs : s.Ready n m r)
    (hk : kindOf s.upcoming = .functionKeyword ∨ kindOf s.upcoming = .asyncKeyword) :
    Affords n (functionExpression parse) s fun _ => 0 := by
  have hrest : ∀ (start : Nat) (isAsync : Bool) (s : State), s.Ready n m 6 → Affords n (do
      let isGenerator ← accept .star
      let name ← withContext (fun c => { c with inGenerator := isGenerator }) (declaredName false)
      let signature ← signatureAndBody parse isAsync isGenerator
      finish start (.function .expression
        ⟨isAsync, isGenerator, name, signature.1, signature.2⟩)) s
        fun _ => 88 := by
    intro start isAsync s hs
    refine (affords_accept _).bind hs fun isGenerator s hs => ?_
    refine (Affords.withContext hs fun s _ hs => affords_declaredName hs false).bind hs ?_
    intro name s hs
    refine (affords_signatureAndBody hparse hs _ _).bind hs fun signature s hs => ?_
    exact affords_finish _ _ (by simp)
  refine tells_position.bind (.accept hs (by decide) (fun s hs => ?_) fun hne => ?_)
  · exact (affords_expect _).bind hs fun _ s hs => (hrest _ _ s hs).mono (by simp)
  · refine .pass hs (affords_expect_of_eq hs (by decide) (hk.resolve_right hne)) (by simp) ?_
    exact fun _ s hs => (hrest _ _ s hs).mono (by simp)

theorem affords_arrowParameters (hs : s.Ready n m r) :
    Affords n (arrowParameters parse) s fun _ => 7 := by
  refine .accept hs (by decide) (fun s hs => ?_) fun _ => tells_position.bind ?_
  · refine (affords_parameterList hparse hs).bind hs fun parameters s hs => ?_
    exact (affords_expect _).bind hs fun _ s hs => .pure (by simp)
  · refine (affords_identifier hs).bind hs fun name s hs => ?_
    exact (looks_finish _ _).bind fun _ s _ => .pure (by simp)

theorem affords_arrowParameters_of_starts (hs : s.Ready n m r)
    (hk : kindOf s.upcoming = .openParen ∨ s.context.binds (kindOf s.upcoming) = true) :
    Affords n (arrowParameters parse) s fun _ => 15 - gain := by
  refine .accept hs (by decide) (fun s hs => ?_) fun hne => tells_position.bind ?_
  · refine (affords_parameterList hparse hs).bind hs fun parameters s hs => ?_
    exact (affords_expect _).bind hs fun _ s hs => .pure (by simp)
  · refine (affords_identifier_of_binds hs (hk.resolve_left hne)).bind hs fun name s hs => ?_
    exact (looks_finish _ _).bind fun _ s _ => .pure (by simp)

omit hparse in
theorem starts_of_startsArrow {Γ : Context} {T : List Token} (h : startsArrow Γ T = true) :
    kindOf T = .asyncKeyword ∨ kindOf T = .openParen ∨ Γ.binds (kindOf T) = true := by
  rw [startsArrow] at h
  split at h
  · next hk => exact .inr (.inl hk)
  · next hk => exact .inl hk
  · exact .inr (.inr (Bool.and_eq_true_iff.1 h).1)

theorem affords_arrowFunction (hs : s.Ready n m r)
    (hk : startsArrow s.context s.upcoming = true) :
    Affords n (arrowFunction parse) s fun _ => 0 := by
  have hbody : ∀ (isAsync : Bool) (s : State), s.Ready n m 6 → Affords n
      (withContext (fun _ => .ofFunction isAsync false) do
        if ← isAt .openBrace then block parse else parse .assignment) s fun _ => 66 := by
    intro isAsync s hs
    refine .withContext hs fun s _ hs => (tells_isAt _).bind (.ite (fun _ => ?_) fun _ => ?_)
    · exact (affords_block hparse (by decide) hs).mono (by simp)
    · exact (hparse .assignment (by simp) hs).mono (by simp)
  refine tells_position.bind (.accept hs (by decide) (fun s hs => ?_) fun hne => ?_)
  · refine (affords_arrowParameters hparse hs).bind hs fun parameters s hs => ?_
    refine (affords_expect _).bind hs fun _ s hs => ?_
    exact (hbody _ s hs).bind hs fun body s hs => affords_finish _ _ (by simp)
  · have hstarts := (starts_of_startsArrow hk).resolve_left hne
    refine .pass hs (affords_arrowParameters_of_starts hparse hs hstarts) (by simp) ?_
    intro parameters s hs
    refine (affords_expect _).bind hs fun _ s hs => ?_
    exact (hbody _ s hs).bind hs fun body s hs => affords_finish _ _ (by simp)

end

end FunctionNaming.Grammar
