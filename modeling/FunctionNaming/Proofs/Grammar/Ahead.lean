import FunctionNaming.Grammar.Statement

/-!
What the grammar asks of the tokens ahead, said of the list of these tokens alone.
-/

namespace FunctionNaming

/-- Whether the kind can name a property. -/
def TokenKind.isWord (k : TokenKind) : Bool := k == .identifier || k.isKeyword

/-- Whether the kind can begin the name of a member, or is the star of a generator. -/
def TokenKind.startsMember : TokenKind → Bool
  | .string | .number | .openBracket | .star => true
  | k => k.isWord

namespace Grammar

/-! ### Surroundings -/

namespace Context

/-- Whether a token of kind `k` can be bound as a name. -/
def binds (Γ : Context) : TokenKind → Bool
  | .identifier => true
  | .yieldKeyword => !Γ.inGenerator
  | k => k.isContextual

/-- Whether a token of kind `k` can begin what a binding binds. -/
def startsBinding (Γ : Context) : TokenKind → Bool
  | .openBrace | .openBracket => true
  | k => Γ.binds k

/-- Where `in` is an operator. -/
def outsideForHead (Γ : Context) : Context := { Γ with inForHead := false }

/-- Where `in` is not an operator. -/
def insideForHead (Γ : Context) : Context := { Γ with inForHead := true }

/-- Where the name of a function expression is bound. -/
def ofGenerator (Γ : Context) (isGenerator : Bool) : Context := { Γ with inGenerator := isGenerator }

end Context

theorem isWord_of_binds {Γ : Context} {k : TokenKind} (h : Γ.binds k = true) : k.isWord = true := by
  cases k <;> first | rfl | cases h

/-! ### The tokens ahead -/

/-- The first of the tokens ahead. -/
def headOf (T : List Token) : Token := T.headD (.atEnd 0)

/-- The kind of the first of the tokens ahead. -/
def kindOf (T : List Token) : TokenKind := (headOf T).kind

/-- Whether a line ends before the first of the tokens ahead. -/
def isBroken (T : List Token) : Bool := (headOf T).afterLineBreak

@[simp] theorem headOf_cons (t : Token) (T : List Token) : headOf (t :: T) = t := rfl

@[simp] theorem kindOf_cons (t : Token) (T : List Token) : kindOf (t :: T) = t.kind := rfl

@[simp] theorem isBroken_cons (t : Token) (T : List Token) :
    isBroken (t :: T) = t.afterLineBreak := rfl

/-- That the last of the tokens, and no other, is the end of the script. -/
def Ended (T : List Token) : Prop :=
  ∃ T₀ t, T = T₀ ++ [t] ∧ t.kind = .endOfFile ∧ ∀ u ∈ T₀, u.kind ≠ .endOfFile

theorem Ended.ne_nil {T : List Token} (h : Ended T) : T ≠ [] := by
  obtain ⟨T₀, t, rfl, -, -⟩ := h
  simp

theorem Ended.suffix {T T' : List Token} (h : Ended T) (hsuffix : T' <:+ T) (hne : T' ≠ []) :
    Ended T' := by
  obtain ⟨T₀, t, rfl, ht, hT₀⟩ := h
  rcases List.suffix_concat_iff.1 hsuffix with rfl | ⟨T₁, rfl, hT₁⟩
  · exact absurd rfl hne
  · exact ⟨T₁, t, rfl, ht, fun u hu => hT₀ u (hT₁.subset hu)⟩

/-- What stands before the end is followed by something. -/
theorem Ended.exists_cons {T : List Token} (h : Ended T) (hk : kindOf T ≠ .endOfFile) :
    ∃ t u T', T = t :: u :: T' := by
  obtain ⟨T₀, t, rfl, ht, -⟩ := h
  match T₀ with
  | [] => exact absurd ht hk
  | [u] => exact ⟨u, t, [], rfl⟩
  | u :: v :: T₀ => exact ⟨u, v, T₀ ++ [t], rfl⟩

/-- Nothing stands behind the end. -/
theorem Ended.eq_singleton {T : List Token} (h : Ended T) (hk : kindOf T = .endOfFile) :
    ∃ t, T = [t] ∧ t.kind = .endOfFile := by
  obtain ⟨T₀, t, rfl, ht, hT₀⟩ := h
  cases T₀ with
  | nil => exact ⟨t, rfl, ht⟩
  | cons u T₀ => exact absurd hk (hT₀ u List.mem_cons_self)

/-- Whether a statement may end before the tokens ahead without a semicolon. -/
def endsStatement (T : List Token) : Bool :=
  match kindOf T with
  | .semicolon | .closeBrace | .endOfFile => true
  | _ => isBroken T

/-- Whether the word `yield` before the tokens ahead has no operand. -/
def endsYieldAt (T : List Token) : Bool :=
  match kindOf T with
  | .closeParen | .closeBracket | .comma | .colon => true
  | _ => endsStatement T

/-- That `T'` is left of the tokens ahead when a token of kind `k` is passed where there is one. -/
def Accepts (k : TokenKind) (present : Bool) (T T' : List Token) : Prop :=
  if present then ∃ t, t.kind = k ∧ T = t :: T' else kindOf T ≠ k ∧ T' = T

/-- That `T'` is left of the tokens ahead at the end of a statement. -/
def Terminates (T T' : List Token) : Prop :=
  Accepts .semicolon true T T' ∨ Accepts .semicolon false T T' ∧ endsStatement T

/-! ### Functions -/

/-- Whether the word `async` ahead is followed by `function` on its line. -/
def isAsyncFunction (T : List Token) : Bool :=
  kindOf T.tail == .functionKeyword && !isBroken T.tail

/-- Whether a function with the word `function` begins here. -/
def startsFunction (T : List Token) : Bool :=
  kindOf T == .functionKeyword || (kindOf T == .asyncKeyword && isAsyncFunction T)

/-- Whether an arrow stands ahead, on the line of the token before it. -/
def isArrowAt (T : List Token) : Bool := kindOf T == .arrow && !isBroken T

/-- The tokens from the mark on that closes a group, of which `depth` opening marks have been
passed. -/
def closing? : Nat → List Token → Option (List Token)
  | _, [] => none
  | depth, t :: T =>
    if t.kind == .endOfFile then none
    else if t.kind.closesGroup && decide (depth ≤ 1) then some (t :: T)
    else if t.kind.opensGroup then closing? (depth + 1) T
    else if t.kind.closesGroup then closing? (depth - 1) T
    else closing? depth T

/-- Whether the group ahead is followed by an arrow. -/
def isGroupBeforeArrow (T : List Token) : Bool :=
  match closing? 0 T with
  | some T' => isArrowAt T'.tail
  | none => false

/-- Whether an arrow function begins here. -/
def startsArrow (Γ : Context) (T : List Token) : Bool :=
  match kindOf T with
  | .openParen => isGroupBeforeArrow T
  | .asyncKeyword =>
    if isBroken T.tail then false
    else if kindOf T.tail == .openParen then isGroupBeforeArrow T.tail
    else Γ.binds (kindOf T.tail) && isArrowAt T.tail.tail
  | k => Γ.binds k && isArrowAt T.tail

/-! ### Members -/

/-- Whether the word ahead modifies the member that follows it. -/
def isModifierAt (T : List Token) : Bool := (kindOf T.tail).startsMember

/-- Whether the word `static` is passed, and what is left. -/
def passStatic (T : List Token) : Bool × List Token :=
  if kindOf T == .staticKeyword && isModifierAt T then (true, T.tail) else (false, T)

/-- Whether the word `async` is passed, and what is left. -/
def passAsync (T : List Token) : Bool × List Token :=
  if kindOf T == .asyncKeyword && (!isBroken T.tail && isModifierAt T) then (true, T.tail)
  else (false, T)

/-- Whether a star is passed, and what is left. -/
def passStar (T : List Token) : Bool × List Token :=
  if kindOf T == .star then (true, T.tail) else (false, T)

/-- The modifiers that are passed, except `static`, and what is left. -/
def passModifiers (isStatic : Bool) (T : List Token) : Modifiers × List Token :=
  if kindOf T == .getKeyword && isModifierAt T then
    (⟨isStatic, false, false, some .getter⟩, T.tail)
  else if kindOf T == .setKeyword && isModifierAt T then
    (⟨isStatic, false, false, some .setter⟩, T.tail)
  else
    let (isAsync, T₁) := passAsync T
    let (isGenerator, T₂) := passStar T₁
    (⟨isStatic, isAsync, isGenerator, none⟩, T₂)

/-! ### Statements -/

/-- Whether a statement that begins here is an expression. -/
def startsExpressionStatement (Γ : Context) (T : List Token) : Bool :=
  match kindOf T with
  | .openBrace | .semicolon | .varKeyword | .constKeyword | .functionKeyword | .classKeyword
  | .ifKeyword | .whileKeyword | .forKeyword | .returnKeyword | .throwKeyword
  | .exportKeyword => false
  | .letKeyword => !Γ.startsBinding (kindOf T.tail)
  | .asyncKeyword => !isAsyncFunction T
  | _ => true

/-- Whether the first part of the head of a loop that begins here is an expression. -/
def startsForExpression (Γ : Context) (T : List Token) : Bool :=
  match kindOf T with
  | .varKeyword | .constKeyword => false
  | .letKeyword => !Γ.startsBinding (kindOf T.tail)
  | _ => true

/-- What closes a group is a closing mark among the tokens ahead. -/
theorem closing?_eq_some {depth : Nat} {T T' : List Token} (h : closing? depth T = some T') :
    T' <:+ T ∧ (kindOf T').closesGroup = true := by
  induction T generalizing depth with
  | nil => cases h
  | cons t T ih =>
    rw [closing?] at h
    split at h
    · cases h
    · split at h
      · next hclose =>
        cases h
        exact ⟨List.suffix_refl _, (Bool.and_eq_true_iff.1 hclose).1⟩
      · have hrest : ∃ depth', closing? depth' T = some T' := by
          split at h
          · exact ⟨_, h⟩
          · split at h
            · exact ⟨_, h⟩
            · exact ⟨_, h⟩
        obtain ⟨depth', hrest⟩ := hrest
        obtain ⟨hsuffix, hkind⟩ := ih hrest
        exact ⟨hsuffix.trans (List.suffix_cons t T), hkind⟩

/-! ### The tests of the grammar -/

section Tests

variable (s : State)

theorem run_kind : kind.run s = (kindOf s.upcoming, s) := rfl

theorem run_isAt (k : TokenKind) : (isAt k).run s = (kindOf s.upcoming == k, s) := rfl

theorem run_afterLineBreak : afterLineBreak.run s = (isBroken s.upcoming, s) := rfl

theorem run_isIdentifier : isIdentifier.run s = (s.context.binds (kindOf s.upcoming), s) := by
  rw [isIdentifier, Parser.run_bind, run_kind]
  cases kindOf s.upcoming <;> rfl

theorem run_isPropertyWord : isPropertyWord.run s = ((kindOf s.upcoming).isWord, s) := rfl

theorem run_isAtOrEnd (k : TokenKind) :
    (isAtOrEnd k).run s = (kindOf s.upcoming == k || kindOf s.upcoming == .endOfFile, s) := rfl

theorem run_startsBinding :
    startsBinding.run s = (s.context.startsBinding (kindOf s.upcoming), s) := by
  rw [startsBinding, Parser.run_bind, run_kind]
  have hidentifier := run_isIdentifier s
  revert hidentifier
  cases kindOf s.upcoming <;> intro hidentifier <;> first | rfl | exact hidentifier

theorem run_startsMember : startsMember.run s = ((kindOf s.upcoming).startsMember, s) := by
  rw [startsMember, Parser.run_bind, run_kind]
  have hword := run_isPropertyWord s
  revert hword
  cases kindOf s.upcoming <;> intro hword <;> first | rfl | exact hword

theorem run_canEndStatement : canEndStatement.run s = (endsStatement s.upcoming, s) := by
  rw [canEndStatement, Parser.run_bind, run_kind, endsStatement]
  cases kindOf s.upcoming <;> rfl

theorem run_endsYield : endsYield.run s = (endsYieldAt s.upcoming, s) := by
  rw [endsYield, Parser.run_bind, run_kind, endsYieldAt]
  have hstatement := run_canEndStatement s
  revert hstatement
  cases kindOf s.upcoming <;> intro hstatement <;> first | rfl | exact hstatement

theorem run_isArrow : isArrow.run s = (isArrowAt s.upcoming, s) := by
  rw [isArrow, Parser.run_bind, run_isAt, isArrowAt]
  cases kindOf s.upcoming == .arrow <;> rfl

end Tests

/-! ### Looking ahead -/

theorem upcoming_advance {s : State} (hs : Ended s.upcoming) (hk : kindOf s.upcoming ≠ .endOfFile) :
    s.advance.upcoming = s.upcoming.tail := by
  obtain ⟨t, u, T, hT⟩ := hs.exists_cons hk
  rw [State.advance, hT]
  rfl

theorem ended_of_keeps {s s' : State} (hs : Ended s.upcoming) (h : s.Keeps s') :
    Ended s'.upcoming :=
  hs.suffix h.upcoming fun hnil => hs.ne_nil (h.atEnd hnil)

theorem ended_advance {s : State} (hs : Ended s.upcoming) : Ended s.advance.upcoming :=
  ended_of_keeps hs s.keeps_advance

theorem forest_advance (s : State) : s.advance.forest = s.forest := by
  rw [State.advance]
  split <;> rfl

theorem context_advance (s : State) : s.advance.context = s.context := s.keeps_advance.context

theorem run_advance (s : State) : advance.run s = ((), s.advance) := rfl

/-- Looking ahead tells what is there and leaves no trace, if no nodes are made on the way. -/
theorem run_lookAhead {α : Type} {p : Parser α} {s : State} {a : α} (s' : State) (h : p.run s = (a, s'))
    (hforest : s'.forest = s.forest) : (lookAhead p).run s = (a, s) := by
  have hrewind := (p.keeps s).rewind_eq
  have hrun : (lookAhead p).run s = ((p.run s).1, (p.run s).2.rewind s) := rfl
  rw [hrun, hrewind, h, hforest]

section LookAhead

variable {s : State} (hs : Ended s.upcoming) (hk : kindOf s.upcoming ≠ .endOfFile)

include hs hk

theorem run_isModifier : isModifier.run s = (isModifierAt s.upcoming, s) := by
  refine run_lookAhead s.advance ?_ (forest_advance s)
  rw [Parser.run_bind, run_advance, run_startsMember, upcoming_advance hs hk]
  rfl

theorem run_isAsyncModifier :
    isAsyncModifier.run s = (!isBroken s.upcoming.tail && isModifierAt s.upcoming, s) := by
  refine run_lookAhead s.advance ?_ (forest_advance s)
  rw [Parser.run_bind, run_advance, Parser.run_bind, run_afterLineBreak, Parser.run_bind,
    run_startsMember, isModifierAt, ← upcoming_advance hs hk]
  rfl

theorem run_startsAsyncFunction :
    startsAsyncFunction.run s = (isAsyncFunction s.upcoming, s) := by
  refine run_lookAhead s.advance ?_ (forest_advance s)
  rw [Parser.run_bind, run_advance, Parser.run_bind, run_isAt, isAsyncFunction,
    ← upcoming_advance hs hk]
  cases kindOf s.advance.upcoming == .functionKeyword <;> rfl

theorem run_startsLetDeclaration :
    startsLetDeclaration.run s = (s.context.startsBinding (kindOf s.upcoming.tail), s) := by
  refine run_lookAhead s.advance ?_ (forest_advance s)
  rw [Parser.run_bind, run_advance, run_startsBinding, upcoming_advance hs hk, context_advance]

omit hk in
theorem run_skipGroupWithin (limit depth : Nat) (hlimit : s.upcoming.length ≤ limit) :
    ∃ s', (skipGroupWithin limit depth).run s = ((closing? depth s.upcoming).isSome, s') ∧
      s'.forest = s.forest ∧ s'.context = s.context ∧
      ∀ T, closing? depth s.upcoming = some T → s'.upcoming = T := by
  induction limit generalizing depth s with
  | zero => exact absurd (List.length_eq_zero_iff.1 (Nat.le_zero.1 hlimit)) hs.ne_nil
  | succ limit ih =>
    obtain ⟨t, T, hT⟩ := List.exists_cons_of_ne_nil hs.ne_nil
    rw [skipGroupWithin, Parser.run_bind, run_kind, hT, kindOf_cons, closing?]
    by_cases hend : t.kind = .endOfFile
    · exact ⟨s, by simp [hend], rfl, rfl, by simp [hend]⟩
    · have hend' : (t.kind == .endOfFile) = false := beq_eq_false_iff_ne.2 hend
      have hadvance : s.advance.upcoming = T := by
        rw [upcoming_advance hs (by rw [hT]; exact hend), hT]
        rfl
      have hstep : ∀ depth', ∃ s', (skipGroupWithin limit depth').run s.advance =
          ((closing? depth' T).isSome, s') ∧ s'.forest = s.forest ∧ s'.context = s.context ∧
          ∀ T', closing? depth' T = some T' → s'.upcoming = T' := by
        intro depth'
        have hlength : s.advance.upcoming.length ≤ limit := by
          rw [hT, List.length_cons] at hlimit
          rw [hadvance]
          omega
        obtain ⟨s', hrun, hforest, hcontext, hupcoming⟩ := ih (ended_advance hs) depth' hlength
        rw [hadvance] at hrun hupcoming
        exact ⟨s', hrun, hforest.trans (forest_advance s),
          hcontext.trans (context_advance s), hupcoming⟩
      by_cases hclose : (t.kind.closesGroup && decide (depth ≤ 1)) = true
      · exact ⟨s, by simp [hend', hclose], rfl, rfl, by simp [hend', hclose, hT]⟩
      · simp only [hend', hclose, Bool.false_eq_true, if_false, Parser.run_bind, run_advance]
        split
        · exact hstep (depth + 1)
        · split
          · exact hstep (depth - 1)
          · exact hstep depth

omit hk in
theorem run_arrowFollowsGroup :
    ∃ s', arrowFollowsGroup.run s = (isGroupBeforeArrow s.upcoming, s') ∧ s'.forest = s.forest := by
  obtain ⟨s₁, hrun, hforest, -, hupcoming⟩ := run_skipGroupWithin hs s.upcoming.length 0 (Nat.le_refl _)
  have hremaining : remaining.run s = (s.upcoming.length, s) := rfl
  rw [arrowFollowsGroup, Parser.run_bind, hremaining, Parser.run_bind, hrun, isGroupBeforeArrow]
  cases hclosing : closing? 0 s.upcoming with
  | none => exact ⟨s₁, rfl, hforest⟩
  | some T =>
    obtain ⟨hsuffix, hkind⟩ := closing?_eq_some hclosing
    have hT : s₁.upcoming = T := hupcoming T hclosing
    have hend : kindOf s₁.upcoming ≠ .endOfFile := by
      intro hend
      rw [hT] at hend
      rw [hend] at hkind
      cases hkind
    have hended : Ended s₁.upcoming := hs.suffix (hT ▸ hsuffix) fun hnil => by
      rw [hnil] at hT
      subst hT
      cases hkind
    refine ⟨s₁.advance, ?_, (forest_advance s₁).trans hforest⟩
    show (advance >>= fun _ => isArrow).run s₁ = _
    rw [Parser.run_bind, run_advance, run_isArrow, upcoming_advance hended hend, hT]

omit hk in
theorem run_startsArrowFunction :
    startsArrowFunction.run s = (startsArrow s.context s.upcoming, s) := by
  rw [startsArrowFunction, Parser.run_bind, run_kind, startsArrow]
  have hgroup : (lookAhead arrowFollowsGroup).run s = (isGroupBeforeArrow s.upcoming, s) := by
    obtain ⟨s', hrun, hforest⟩ := run_arrowFollowsGroup hs
    exact run_lookAhead s' hrun hforest
  have hname : (do
      if ← isIdentifier then
        lookAhead do
          advance
          isArrow
      else return false : Parser Bool).run s =
      (s.context.binds (kindOf s.upcoming) && isArrowAt s.upcoming.tail, s) := by
    rw [Parser.run_bind, run_isIdentifier]
    cases hbinds : s.context.binds (kindOf s.upcoming) with
    | false => rfl
    | true =>
      have hk : kindOf s.upcoming ≠ .endOfFile := fun hend => by simp [hend, Context.binds,
        TokenKind.isContextual] at hbinds
      refine run_lookAhead s.advance ?_ (forest_advance s)
      rw [Parser.run_bind, run_advance, run_isArrow, upcoming_advance hs hk]
      rfl
  generalize hkind : kindOf s.upcoming = k at hname ⊢
  cases k
  case openParen => exact hgroup
  case asyncKeyword =>
    have hk : kindOf s.upcoming ≠ .endOfFile := by simp [hkind]
    have htail := upcoming_advance hs hk
    obtain ⟨s', hrun, hforest⟩ := run_arrowFollowsGroup (ended_advance hs)
    rw [htail] at hrun
    have hahead : ∀ s' b, s'.forest = s.forest → (do
          if ← afterLineBreak then return false
          if ← isAt .openParen then arrowFollowsGroup
          else if ← isIdentifier then
            advance
            isArrow
          else return false : Parser Bool).run s.advance = (b, s') →
        (lookAhead do
          advance
          if ← afterLineBreak then return false
          if ← isAt .openParen then arrowFollowsGroup
          else if ← isIdentifier then
            advance
            isArrow
          else return false).run s = (b, s) := by
      intro s' b hforest hrun
      refine run_lookAhead s' ?_ hforest
      rw [Parser.run_bind, run_advance]
      exact hrun
    show (lookAhead _).run s = _
    dsimp only
    cases hbroken : isBroken s.upcoming.tail with
    | true =>
      refine hahead s.advance _ (forest_advance s) ?_
      rw [Parser.run_bind, run_afterLineBreak, htail, hbroken]
      rfl
    | false =>
      cases hparen : kindOf s.upcoming.tail == .openParen with
      | true =>
        refine hahead s' _ (hforest.trans (forest_advance s)) ?_
        rw [Parser.run_bind, run_afterLineBreak, htail, hbroken]
        simp only [Bool.false_eq_true, if_false, Parser.run_bind, run_isAt, htail, hparen, if_true,
          hrun]
      | false =>
        cases hbinds : s.context.binds (kindOf s.upcoming.tail) with
        | false =>
          refine hahead s.advance _ (forest_advance s) ?_
          simp [run_afterLineBreak, run_isAt, run_isIdentifier, context_advance, htail, hbroken,
            hparen, hbinds]
        | true =>
          have hk' : kindOf s.advance.upcoming ≠ .endOfFile := fun hend => by
            rw [htail] at hend
            simp [hend, Context.binds, TokenKind.isContextual] at hbinds
          refine hahead s.advance.advance _
            ((forest_advance _).trans (forest_advance s)) ?_
          have htail' := upcoming_advance (ended_advance hs) hk'
          rw [htail] at htail'
          simp [run_afterLineBreak, run_isAt, run_isIdentifier, run_advance, run_isArrow,
            context_advance, htail, htail', hbroken, hparen, hbinds]
  all_goals exact hname

end LookAhead

/-! ### Moving on -/

/-- That `s'` differs from `s` only in that the tokens ahead are `T` there. -/
structure State.Moves (s : State) (T : List Token) (s' : State) : Prop where
  upcoming : s'.upcoming = T
  forest : s'.forest = s.forest
  context : s'.context = s.context
  depth : s'.depth = s.depth
  faults : s'.faults = s.faults

theorem State.moves_self (s : State) : s.Moves s.upcoming s := ⟨rfl, rfl, rfl, rfl, rfl⟩

theorem State.moves_advance {s : State} (hs : Ended s.upcoming)
    (hk : kindOf s.upcoming ≠ .endOfFile) : s.Moves s.upcoming.tail s.advance where
  upcoming := upcoming_advance hs hk
  forest := forest_advance s
  context := context_advance s
  depth := s.keeps_advance.depth
  faults := by
    rw [State.advance]
    split <;> rfl

theorem State.Moves.trans {s s₁ s₂ : State} {T₁ T₂ : List Token} (h₁ : s.Moves T₁ s₁)
    (h₂ : s₁.Moves T₂ s₂) : s.Moves T₂ s₂ where
  upcoming := h₂.upcoming
  forest := h₂.forest.trans h₁.forest
  context := h₂.context.trans h₁.context
  depth := h₂.depth.trans h₁.depth
  faults := h₂.faults.trans h₁.faults

theorem ended_of_run {α : Type} {p : Parser α} {s s' : State} {a : α} (hs : Ended s.upcoming)
    (h : p.run s = (a, s')) : Ended s'.upcoming := by
  have hkeeps := p.keeps s
  rw [h] at hkeeps
  exact ended_of_keeps hs hkeeps

section Moves

variable {s : State} (hs : Ended s.upcoming)

theorem run_accept_of_eq {k : TokenKind} (h : kindOf s.upcoming = k) :
    (accept k).run s = (true, s.advance) := by
  simp [accept, run_isAt, run_advance, h]

theorem run_accept_of_ne {k : TokenKind} (h : kindOf s.upcoming ≠ k) :
    (accept k).run s = (false, s) := by
  simp [accept, run_isAt, h]

include hs

/-- A token is passed where it is there. -/
theorem exists_run_accept {k : TokenKind} (hk : k ≠ .endOfFile) :
    ∃ b s' T, (accept k).run s = (b, s') ∧ Accepts k b s.upcoming T ∧ s.Moves T s' := by
  by_cases h : kindOf s.upcoming = k
  · obtain ⟨t, u, T, hT⟩ := hs.exists_cons (h ▸ hk)
    refine ⟨true, s.advance, s.upcoming.tail, run_accept_of_eq h, ?_,
      State.moves_advance hs (h ▸ hk)⟩
    rw [hT] at h ⊢
    exact ⟨t, h, rfl⟩
  · exact ⟨false, s, s.upcoming, run_accept_of_ne h, ⟨h, rfl⟩, s.moves_self⟩

theorem exists_run_staticModifier :
    ∃ s', staticModifier.run s = ((passStatic s.upcoming).1, s') ∧
      s.Moves (passStatic s.upcoming).2 s' := by
  rw [staticModifier, Parser.run_bind, run_isAt, passStatic]
  by_cases hstatic : kindOf s.upcoming = .staticKeyword
  · have hk : kindOf s.upcoming ≠ .endOfFile := by simp [hstatic]
    cases hmodifier : isModifierAt s.upcoming with
    | true =>
      exact ⟨s.advance, by simp [hstatic, run_isModifier hs hk, hmodifier, run_advance],
        by simpa [hstatic] using State.moves_advance hs hk⟩
    | false =>
      exact ⟨s, by simp [hstatic, run_isModifier hs hk, hmodifier],
        by simpa [hstatic] using s.moves_self⟩
  · exact ⟨s, by simp [hstatic], by simpa [hstatic] using s.moves_self⟩

theorem exists_run_asyncModifier :
    ∃ s', asyncModifier.run s = ((passAsync s.upcoming).1, s') ∧
      s.Moves (passAsync s.upcoming).2 s' := by
  rw [asyncModifier, Parser.run_bind, run_isAt, passAsync]
  by_cases hasync : kindOf s.upcoming = .asyncKeyword
  · have hk : kindOf s.upcoming ≠ .endOfFile := by simp [hasync]
    have hmodifier := run_isAsyncModifier hs hk
    have hmoves := State.moves_advance hs hk
    generalize (!isBroken s.upcoming.tail && isModifierAt s.upcoming) = b at hmodifier ⊢
    cases b with
    | true => exact ⟨s.advance, by simp [hasync, hmodifier, run_advance], by simpa [hasync] using hmoves⟩
    | false => exact ⟨s, by simp [hasync, hmodifier], by simpa [hasync] using s.moves_self⟩
  · exact ⟨s, by simp [hasync], by simpa [hasync] using s.moves_self⟩

theorem exists_run_acceptStar :
    ∃ s', (accept .star).run s = ((passStar s.upcoming).1, s') ∧
      s.Moves (passStar s.upcoming).2 s' := by
  rw [passStar]
  by_cases hstar : kindOf s.upcoming = .star
  · exact ⟨s.advance, by simp [hstar, run_accept_of_eq hstar],
      by simpa [hstar] using State.moves_advance hs (by simp [hstar])⟩
  · exact ⟨s, by simp [hstar, run_accept_of_ne hstar], by simpa [hstar] using s.moves_self⟩

/-- The word of an accessor, and what is left behind it where it is a modifier. -/
theorem exists_run_accessorModifier :
    ∃ s', accessorModifier.run s =
        (if kindOf s.upcoming == .getKeyword && isModifierAt s.upcoming then some .getter
          else if kindOf s.upcoming == .setKeyword && isModifierAt s.upcoming then some .setter
          else none, s') ∧
      s.Moves
        (if (kindOf s.upcoming == .getKeyword || kindOf s.upcoming == .setKeyword) &&
            isModifierAt s.upcoming then s.upcoming.tail
          else s.upcoming) s' := by
  rw [accessorModifier, Parser.run_bind, run_kind]
  by_cases hword : kindOf s.upcoming = .getKeyword ∨ kindOf s.upcoming = .setKeyword
  · have hk : kindOf s.upcoming ≠ .endOfFile := by
      rcases hword with hword | hword <;> simp [hword]
    have hmodifier := run_isModifier hs hk
    have hmoves := State.moves_advance hs hk
    cases hahead : isModifierAt s.upcoming with
    | true =>
      refine ⟨s.advance, ?_, ?_⟩
      · rcases hword with hword | hword <;>
          simp [hword, hmodifier, hahead, run_advance]
      · rcases hword with hword | hword <;> simpa [hword] using hmoves
    | false =>
      refine ⟨s, ?_, by simpa using s.moves_self⟩
      rcases hword with hword | hword <;> simp [hword, hmodifier, hahead]
  · obtain ⟨hget, hset⟩ := not_or.1 hword
    refine ⟨s, ?_, by simpa [hget, hset] using s.moves_self⟩
    generalize kindOf s.upcoming = k at hget hset ⊢
    cases k <;> simp at hget hset ⊢

theorem exists_run_modifiers (isStatic : Bool) :
    ∃ s', (modifiers isStatic).run s = ((passModifiers isStatic s.upcoming).1, s') ∧
      s.Moves (passModifiers isStatic s.upcoming).2 s' := by
  obtain ⟨s₁, haccessor, hmoves⟩ := exists_run_accessorModifier hs
  rw [modifiers, Parser.run_bind, haccessor, passModifiers]
  by_cases hget : (kindOf s.upcoming == .getKeyword && isModifierAt s.upcoming) = true
  · refine ⟨s₁, by simp [hget], ?_⟩
    obtain ⟨hword, hmodifier⟩ := Bool.and_eq_true_iff.1 hget
    simpa [hword, hmodifier] using hmoves
  · by_cases hset : (kindOf s.upcoming == .setKeyword && isModifierAt s.upcoming) = true
    · refine ⟨s₁, by simp [hget, hset], ?_⟩
      obtain ⟨hword, hmodifier⟩ := Bool.and_eq_true_iff.1 hset
      have hword' := eq_of_beq hword
      simpa [hword', hmodifier] using hmoves
    · have hstay : s.Moves s.upcoming s₁ := by
        have hneither : ((kindOf s.upcoming == .getKeyword || kindOf s.upcoming == .setKeyword) &&
            isModifierAt s.upcoming) = false := by
          rw [Bool.and_or_distrib_right]
          simp [hget, hset]
        simpa [hneither] using hmoves
      obtain ⟨s₂, hasync, hmoves₂⟩ := exists_run_asyncModifier (hstay.upcoming ▸ hs)
      rw [hstay.upcoming] at hasync hmoves₂
      obtain ⟨s₃, hstar, hmoves₃⟩ :=
        exists_run_acceptStar (ended_of_run (hstay.upcoming ▸ hs) hasync)
      rw [hmoves₂.upcoming] at hstar hmoves₃
      exact ⟨s₃, by simp [hget, hset, hasync, hstar],
        by simpa [hget, hset] using (hstay.trans hmoves₂).trans hmoves₃⟩

end Moves

end Grammar

end FunctionNaming
