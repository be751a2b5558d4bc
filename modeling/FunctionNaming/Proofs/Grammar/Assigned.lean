import FunctionNaming.Proofs.Grammar.Derivation
import FunctionNaming.Proofs.Path.Chain

/-!
The script that assigns a function to a chain of accesses, derived from its tokens. The chain grows
from the left, one member at a time. What is a phrase before the end of an operand is an operand by
itself, for each sort of phrase that is put around it. Which function is assigned, and where the
statement stands, makes no difference to the phrases around the function.
-/

namespace FunctionNaming

open SyntaxTree (node)

/-! ### Chains -/

/-- That a tree is a chain of accesses with these segments. -/
inductive SyntaxTree.IsChain : SyntaxTree → List Segment → Prop
  | name (text : String) : IsChain (node (.identifier text)) [.name text]
  | this : IsChain (node .thisExpression) [.name "this"]
  | property {object : SyntaxTree} {segments : List Segment} (text : String) :
      IsChain object segments →
      IsChain (node (.propertyAccess (some object) (some (node (.identifier text)))))
        (segments ++ [.name text])
  | element {object : SyntaxTree} {segments : List Segment} (quote : Char) (value : String) :
      IsChain object segments →
      IsChain (node (.elementAccess (some object) (some (node (.stringLiteral quote value)))))
        (segments ++ [.key value])

/-- The function that has no name, no parameters and no statements. -/
def SyntaxTree.emptyFunction : SyntaxTree :=
  node (.function .expression ⟨false, false, none, [], some (node (.block []))⟩)

/-- The statement that assigns a value to a target. -/
def SyntaxTree.assigns (target value : SyntaxTree) : SyntaxTree :=
  node (.expressionStatement (some (node (.binary (some target) .assign (some value)))))

/-- The statement that assigns such a function to a target. -/
def SyntaxTree.assignsTo (target : SyntaxTree) : SyntaxTree := target.assigns emptyFunction

namespace Grammar

/-- Whether an operand ends before a token of kind `k`, which is no operator with a precedence. -/
def endsOperand (k : TokenKind) : Bool :=
  !k.isPostfixOperator && k.precedence? == none &&
    decide (k ∉ [.dot, .openBracket, .openParen, .question])

variable {Γ : Context} {d : Nat} {T rest : List Token} {t : Token} {e : SyntaxTree}

/-! ### Operands -/

/-- An operand by itself is what may be assigned to. -/
theorem derives_conditional (h : Derives (.chain true) Γ d T [e] rest)
    (hrest : endsOperand (kindOf rest) = true) : Derives .conditional Γ d T [e] rest := by
  simp only [endsOperand, Bool.and_eq_true, Bool.not_eq_true', beq_iff_eq, decide_eq_true_eq,
    List.mem_cons, List.not_mem_nil, or_false, not_or] at hrest
  obtain ⟨⟨hbehind, hprecedence⟩, hdot, hbracket, hparen, hquestion⟩ := hrest
  have hstops : stopsOperands Γ 0 (kindOf rest) = true := by
    rw [stopsOperands, hprecedence]
  have hside := Derives.leftHandSide h hdot hbracket hparen
  have hunary := Derives.operand hside (by simp [hbehind])
  exact .noCondition (.binary (.operandsFirst hunary) hstops) hquestion

theorem derives_assignment (h : Derives (.chain true) Γ (d + 1) T [e] rest) (hd : d < maxNesting)
    (hT : startsArrow Γ T = false) (hrest : endsOperand (kindOf rest) = true)
    (hassign : (kindOf rest).isAssignment = false) : Derives .assignment Γ d T [e] rest :=
  .noAssignment hd (by simp [hT]) (derives_conditional h hrest) (by simp [hassign])

/-- A string in brackets. -/
theorem derives_string {c : Token} (hd : d < maxNesting) (ht : t.kind = .string)
    (hc : c.kind = .closeBracket) :
    Derives .expression Γ d (t :: c :: rest)
      [node (.stringLiteral (t.text.toList.headD '"') t.value)] (c :: rest) := by
  have harrow : startsArrow Γ (t :: c :: rest) = false := by
    simp [startsArrow, ht, Context.binds, TokenKind.isContextual]
  have hchain : Derives (.chain true) Γ (d + 1) (t :: c :: rest) _ (c :: rest) :=
    .chainFirst (.primaryLiteral (.string ht))
  refine .expression (.sequenceFirst (derives_assignment hchain hd harrow ?_ ?_)) ?_ <;>
    rw [kindOf_cons, hc] <;> decide

/-! ### Members -/

theorem exists_cons_of_map_reading {k : TokenKind} {v : String} {rs : List (TokenKind × String)}
    (h : T.map Token.reading = (k, v) :: rs) :
    ∃ t T', T = t :: T' ∧ t.kind = k ∧ t.value = v ∧ T'.map Token.reading = rs := by
  obtain ⟨t, T', rfl, ht, hT'⟩ := List.map_eq_cons_iff.1 h
  exact ⟨t, T', rfl, congrArg Prod.fst ht, congrArg Prod.snd ht, hT'⟩

theorem isWord_wordReading (word : List Char) : (wordReading word).1.isWord = true := by
  have hall : ∀ k ∈ TokenKind.keywords, k.isWord = true := by decide
  rw [wordReading]
  cases h : TokenKind.keyword? (String.ofList word) with
  | none => rfl
  | some k => exact hall k (List.mem_of_find?_eq_some h)

/-- The tokens of a member behind a chain add this member to it. -/
theorem exists_derives_member {o : SyntaxTree} {T₁ : List Token} {segments : List Segment}
    {s : Segment} (h : Derives (.chain true) Γ d T [o] (T₁ ++ rest)) (ho : o.IsChain segments)
    (hs : s.isMember = true) (hd : d < maxNesting) (hT₁ : T₁.map Token.reading = s.readings) :
    ∃ e, Derives (.chain true) Γ d T [e] rest ∧ e.IsChain (segments ++ [s]) := by
  cases s with
  | name text =>
    obtain ⟨p, T₂, rfl, hp, -, hT₂⟩ := exists_cons_of_map_reading hT₁
    obtain ⟨w, T₃, rfl, hw, hvalue, hT₃⟩ := exists_cons_of_map_reading hT₂
    obtain rfl := List.map_eq_nil_iff.1 hT₃
    rw [String.ofList_toList] at hvalue
    subst hvalue
    exact ⟨_, .propertyAccess h hp (.word (hw ▸ isWord_wordReading _)), .property _ ho⟩
  | key value =>
    obtain ⟨p, T₂, rfl, hp, -, hT₂⟩ := exists_cons_of_map_reading hT₁
    obtain ⟨w, T₃, rfl, hw, rfl, hT₃⟩ := exists_cons_of_map_reading hT₂
    obtain ⟨c, T₄, rfl, hc, -, hT₄⟩ := exists_cons_of_map_reading hT₃
    obtain rfl := List.map_eq_nil_iff.1 hT₄
    exact ⟨_, .elementAccess h hp (derives_string hd hw hc) hc, .element _ _ ho⟩
  | computed => cases hs

theorem exists_derives_members {o : SyntaxTree} {T₁ : List Token} {segments ss : List Segment}
    (h : Derives (.chain true) Γ d T [o] (T₁ ++ rest)) (ho : o.IsChain segments)
    (hss : ∀ s ∈ ss, s.isMember = true) (hd : d < maxNesting)
    (hT₁ : T₁.map Token.reading = ss.flatMap Segment.readings) :
    ∃ e, Derives (.chain true) Γ d T [e] rest ∧ e.IsChain (segments ++ ss) := by
  induction ss generalizing o T₁ segments with
  | nil =>
    obtain rfl := List.map_eq_nil_iff.1 hT₁
    exact ⟨o, h, by simpa using ho⟩
  | cons s ss ih =>
    obtain ⟨hs, hss⟩ := List.forall_mem_cons.1 hss
    obtain ⟨T₂, T₃, rfl, hT₂, hT₃⟩ := List.map_eq_append_iff.1 hT₁
    rw [List.append_assoc] at h
    obtain ⟨o', h', ho'⟩ := exists_derives_member h ho hs hd hT₂
    obtain ⟨e, he, hchain⟩ := ih h' ho' hss hT₃
    exact ⟨e, he, by simpa using hchain⟩

/-! ### The statement -/

/-- What stands behind the first token of a chain is no arrow. -/
theorem kindOf_members_append {ss : List Segment} {T₁ : List Token}
    (hss : ∀ s ∈ ss, s.isMember = true)
    (hT₁ : T₁.map Token.reading = ss.flatMap Segment.readings) (hrest : kindOf rest ≠ .arrow) :
    kindOf (T₁ ++ rest) ≠ .arrow := by
  cases ss with
  | nil =>
    obtain rfl := List.map_eq_nil_iff.1 hT₁
    exact hrest
  | cons s ss =>
    have hs := (List.forall_mem_cons.1 hss).1
    cases s with
    | name text | key value =>
      obtain ⟨p, T₂, rfl, hp, -⟩ := exists_cons_of_map_reading hT₁
      rw [List.cons_append, kindOf_cons, hp]
      decide
    | computed => cases hs

/-- A function goes on behind its name with parameters in parentheses and a body, if there are none
of both. -/
theorem derives_signature {T : List Token} (isAsync isGenerator : Bool) (hd : d < maxNesting)
    (hT : T.map Token.reading = signatureReadings) :
    Derives (.signature isAsync isGenerator) Γ d (T ++ rest) ([] ++ [node (.block [])]) rest := by
  obtain ⟨o, T₁, rfl, ho, -, hT₁⟩ := exists_cons_of_map_reading hT
  obtain ⟨c, T₂, rfl, hc, -, hT₂⟩ := exists_cons_of_map_reading hT₁
  obtain ⟨b, T₃, rfl, hb, -, hT₃⟩ := exists_cons_of_map_reading hT₂
  obtain ⟨e, T₄, rfl, he, -, hT₄⟩ := exists_cons_of_map_reading hT₃
  obtain rfl := List.map_eq_nil_iff.1 hT₄
  have hblock : Derives .block (.ofFunction isAsync isGenerator) d (b :: e :: rest)
      [node (.block [])] rest :=
    .block hd hb (.statementsEnd (.inl he)) he
  exact .signature ho (.listEnd (.inl hc)) hc hblock

/-- The first token behind the name of a function opens its parameters. -/
theorem kindOf_signature {T : List Token} (rest : List Token)
    (hT : T.map Token.reading = signatureReadings) : kindOf (T ++ rest) = .openParen := by
  obtain ⟨o, T₁, rfl, ho, -⟩ := exists_cons_of_map_reading hT
  exact ho

theorem derives_emptyFunction {T : List Token} (hd : d < maxNesting)
    (hT : T.map Token.reading = functionReadings) :
    Derives (.function .expression false) Γ d (T ++ rest) [.emptyFunction] rest := by
  obtain ⟨f, T₁, rfl, hf, -, hT₁⟩ := exists_cons_of_map_reading hT
  have hopen := kindOf_signature rest hT₁
  have hname : Derives (.declaredName false) (nameContext Γ false .expression) d (T₁ ++ rest) []
      (T₁ ++ rest) := .noName (by rw [hopen]; exact Bool.false_ne_true)
  have hstar : Accepts .star false (T₁ ++ rest) (T₁ ++ rest) := ⟨by rw [hopen]; decide, rfl⟩
  have hasync : Accepts .asyncKeyword false (f :: T₁ ++ rest) (f :: (T₁ ++ rest)) :=
    ⟨by rw [List.cons_append, kindOf_cons, hf]; decide, rfl⟩
  exact .function hasync hf hstar hname (derives_signature false false hd hT₁)

/-- A function before the end of its statement is what is assigned. -/
theorem derives_assigned {f : SyntaxTree} {semi : Token} (hd : d < maxNesting)
    (hstarts : startsFunction T = true) (harrow : startsArrow Γ T = false)
    (hf : Derives (.function .expression false) Γ (d + 1) T [f] (semi :: rest))
    (hsemi : semi.kind = .semicolon) : Derives .assignment Γ d T [f] (semi :: rest) := by
  refine derives_assignment (.chainFirst (.primaryFunction hstarts hf)) hd harrow ?_ ?_ <;>
    rw [kindOf_cons, hsemi] <;> decide

/-- A target, the sign of assignment, a value and a semicolon are a statement. -/
theorem derives_assigns {T₁ : List Token} {v : SyntaxTree} {a semi : Token}
    (hd : d + 1 < maxNesting) (hstarts : startsExpressionStatement Γ T = true)
    (harrow : startsArrow Γ T = false) (he : Derives (.chain true) Γ (d + 2) T [e] (a :: T₁))
    (ha : a.kind = .assign) (hv : Derives .assignment Γ (d + 2) T₁ [v] (semi :: rest))
    (hsemi : semi.kind = .semicolon) : Derives .statement Γ d T [e.assigns v] rest := by
  have htarget : Derives .conditional Γ (d + 2) T [e] (a :: T₁) :=
    derives_conditional he (by rw [kindOf_cons, ha]; decide)
  have hassignment : Derives .assignment Γ (d + 1) T
      [node (.binary (some e) .assign (some v))] (semi :: rest) := by
    have hbinary := Derives.assignment hd (by simp [harrow]) htarget (by rw [ha]; rfl) hv
    rwa [ha] at hbinary
  have hexpression : Derives .expression Γ (d + 1) T _ (semi :: rest) :=
    .expression (.sequenceFirst hassignment) (by rw [kindOf_cons, hsemi]; decide)
  exact .statement (Nat.lt_of_succ_lt hd)
    (.expressionStatement hstarts hexpression (.inl ⟨semi, hsemi, rfl⟩))

/-- The first token of a chain is a chain by itself, and begins a statement that is an expression and
no arrow function. -/
theorem exists_derives_first (Γ : Context) (d : Nat) {s : Segment} {ss : List Segment}
    (h : IsMemberChain (s :: ss)) (ht : t.reading = wordReading s.first.toList)
    (hT : kindOf T ≠ .arrow) :
    (∃ o, Derives (.chain true) Γ d (t :: T) [o] T ∧ o.IsChain [s.plain]) ∧
      startsArrow Γ (t :: T) = false ∧ startsExpressionStatement Γ (t :: T) = true := by
  have hkind : t.kind = (wordReading s.first.toList).1 := congrArg Prod.fst ht
  have hvalue : t.value = (wordReading s.first.toList).2 := congrArg Prod.snd ht
  cases h with
  | @name text _ _ hkeyword =>
    obtain rfl : t.value = text := by simpa [wordReading, Segment.first] using hvalue
    replace hkind : t.kind = .identifier := by
      simpa [wordReading, Segment.first, hkeyword] using hkind
    have hbinds : Γ.binds t.kind = true := by
      rw [hkind]
      rfl
    have hstarts : ¬startsFunction (t :: T) = true := by simp [startsFunction, hkind]
    refine ⟨⟨_, .chainFirst (.primaryName hstarts (.name hbinds)), .name _⟩, ?_, ?_⟩
    · simp [startsArrow, hkind, isArrowAt, hT]
    · simp [startsExpressionStatement, hkind]
  | this =>
    replace hkind : t.kind = .thisKeyword := hkind.trans (by decide)
    have hshape : keywordShape? t.kind = some .thisExpression := by rw [hkind]; rfl
    refine ⟨⟨_, .chainFirst (.primaryKeyword hshape), .this⟩, ?_, ?_⟩
    · simp [startsArrow, hkind, Context.binds, TokenKind.isContextual]
    · simp [startsExpressionStatement, hkind]

/-- A chain, the sign of assignment, the function and a semicolon are a script. -/
theorem derives_assignsTo {T₁ : List Token} {a semi last : Token}
    (hstarts : startsExpressionStatement .outermost T = true)
    (harrow : startsArrow .outermost T = false)
    (he : Derives (.chain true) .outermost 2 T [e] (a :: (T₁ ++ [semi, last])))
    (ha : a.kind = .assign) (hT₁ : T₁.map Token.reading = functionReadings)
    (hsemi : semi.kind = .semicolon) (hlast : last.kind = .endOfFile) :
    Derives .statements .outermost 0 T [e.assignsTo] [last] := by
  have hfunction : Derives (.function .expression false) .outermost 3 (T₁ ++ [semi, last])
      [.emptyFunction] [semi, last] := derives_emptyFunction (by decide) hT₁
  obtain ⟨f, T₂, rfl, hf, -⟩ := exists_cons_of_map_reading hT₁
  have hvalue : Derives .assignment .outermost 2 (f :: T₂ ++ [semi, last]) [.emptyFunction]
      [semi, last] :=
    derives_assigned (by decide) (by simp [startsFunction, hf])
      (by simp [startsArrow, hf, Context.binds, TokenKind.isContextual]) hfunction hsemi
  exact .statementsMore (derives_assigns (by decide) hstarts harrow he ha hvalue hsemi)
    (.statementsEnd (.inr hlast))

/-- The tokens of a chain and of what is assigned to it are those of a script of one statement. -/
theorem exists_derives_assignsTo {s : Segment} {ss : List Segment} {T : List Token} {last : Token}
    (h : IsMemberChain (s :: ss))
    (hT : T.map Token.reading = wordReading s.first.toList ::
      (ss.map Segment.plain).flatMap Segment.readings ++ assignedReadings)
    (hlast : last.kind = .endOfFile) :
    ∃ e : SyntaxTree, e.IsChain ((s :: ss).map Segment.plain) ∧
      Derives .statements .outermost 0 (T ++ [last]) [e.assignsTo] [last] := by
  have hss := h.map_plain.isMember
  -- The first token, the members, the sign of assignment, the function and the semicolon.
  rw [List.cons_append] at hT
  obtain ⟨t, T₀, rfl, ht, hT₀⟩ := List.map_eq_cons_iff.1 hT
  obtain ⟨T₁, T₂, rfl, hT₁, hT₂⟩ := List.map_eq_append_iff.1 hT₀
  obtain ⟨T₃, T₄, rfl, hT₃, hT₄⟩ := List.map_eq_append_iff.1 hT₂
  obtain ⟨a, T₅, rfl, ha, -, hT₅⟩ := exists_cons_of_map_reading hT₃
  obtain ⟨semi, T₆, rfl, hsemi, -, hT₆⟩ := exists_cons_of_map_reading hT₄
  obtain rfl := List.map_eq_nil_iff.1 hT₆
  have hsplit : t :: (T₁ ++ (a :: T₅ ++ [semi])) ++ [last] =
      t :: (T₁ ++ a :: (T₅ ++ [semi, last])) := by simp
  rw [hsplit]
  have harrow : kindOf (T₁ ++ a :: (T₅ ++ [semi, last])) ≠ .arrow :=
    kindOf_members_append hss hT₁ (by rw [kindOf_cons, ha]; decide)
  obtain ⟨⟨o, ho, hfirst⟩, hnoarrow, hstarts⟩ :=
    exists_derives_first .outermost 2 h ht harrow
  obtain ⟨e, he, hchain⟩ := exists_derives_members ho hfirst hss (by decide) hT₁
  refine ⟨e, by simpa using hchain, ?_⟩
  exact derives_assignsTo hstarts hnoarrow he ha hT₅ hsemi hlast

end Grammar

end FunctionNaming
