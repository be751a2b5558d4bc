import FunctionNaming.Proofs.Syntax.Apart

/-!
The trees of phrases are kept apart when they are printed. Statements and members end with a semicolon
or a block, holes and methods stand in lists only, and what a member is accessed of is a phrase that
ends with a word or a bracket, or a number.
-/

namespace FunctionNaming

namespace Grammar

variable {c : Category} {Γ : Context} {d : Nat} {T rest : List Token} {ts : List SyntaxTree}

/-- Whether there may be anything behind the phrases of the category. -/
def Category.isSettled : Category → Bool
  | .word | .name | .declaredName _ | .statements | .block | .function .declaration _
  | .function .expression _ | .classLike .. | .classMember | .classMembers | .objectLiteral
  | .variableStatement | .alternative | .exportedDeclaration | .bareStatement | .statement => true
  | _ => false

/-- The last node of a signature is a block. -/
theorem Derives.exits_of_signature {isAsync isGenerator : Bool} {ps : List SyntaxTree}
    {b : SyntaxTree} (h : Derives (.signature isAsync isGenerator) Γ d T (ps ++ [b]) rest) :
    b.Exits .settled := by
  generalize hts : ps ++ [b] = ts at h
  cases h with
  | signature _ _ _ hblock =>
    obtain ⟨-, hb⟩ := List.append_inj' hts rfl
    obtain rfl := List.cons.inj hb |>.1
    cases hblock
    exact .self rfl (.refl _)

/-- A word that is an expression by itself is a word. -/
theorem apart_of_keywordShape? {k : TokenKind} {shape : ShapeOf SyntaxTree}
    (h : keywordShape? k = some shape) :
    (SyntaxTree.node shape).Exits .settled ∧ shape.isListed = false ∧ shape.children = [] ∧
      SyntaxTree.KeepsApart shape := by
  cases k <;> cases h <;> exact ⟨.self rfl (.refl _), rfl, rfl, nofun, nofun, trivial⟩

/-- Statements and members end with a semicolon or a block, and so do functions with their word. -/
theorem Derives.exits (h : Derives c Γ d T ts rest) (hc : c.isSettled = true) :
    ∀ tree ∈ ts, tree.Exits .settled := by
  induction h with
  | @ifStatement _ _ _ _ _ _ _ _ y =>
    cases y <;> simp_all [Category.isSettled, ShapeOf.rightmost?, ShapeOf.exit, Edge.Within.refl]
  | _ =>
    try have hbody := Derives.exits_of_signature ‹_›
    simp_all [Category.isSettled, ShapeOf.rightmost?, ShapeOf.exit, Edge.Within.refl]

/-- A declaration ends with a block or a brace, wherever it stands. -/
theorem Derives.exits_of_isDeclaration (h : Derives c Γ d T ts rest) :
    ∀ tree ∈ ts, tree.isDeclaration = true → tree.Exits .settled := by
  induction h with
  | primaryKeyword hk => simp [(apart_of_keywordShape? hk).1]
  | _ =>
    try have hbody := Derives.exits_of_signature ‹_›
    try simp only [List.mem_cons, List.mem_append, List.not_mem_nil, or_false, forall_eq,
      forall_eq_or_imp, SyntaxTree.isDeclaration_node, ShapeOf.isDeclaration,
      SyntaxTree.exits_node_iff, ShapeOf.rightmost?, ShapeOf.exit] at *
    grind -linarith [Edge.Within.refl]

/-- Whether the phrases of the category may be what stands in lists only. -/
def Category.givesListed : Category → Bool
  | .objectMember | .classMember | .classMembers => true
  | .list holes _ item => holes || item.givesListed
  | _ => false

/-- What a member is accessed of is a number, or there may be anything behind it: the construction of
an object without arguments would have taken the access for itself. -/
theorem Derives.exits_of_object {calls : Bool} {e : SyntaxTree}
    (h : Derives (.chain calls) Γ d T [e] rest) (hrest : kindOf rest = .dot) :
    e.isNumber = true ∨ e.Exits .settled := by
  cases h with
  | chainFirst hprimary =>
    cases hprimary with
    | primaryKeyword hk => exact .inr (apart_of_keywordShape? hk).1
    | primaryLiteral hliteral =>
      cases hliteral with
      | string => exact .inr (.self rfl (.refl _))
      | number => exact .inl rfl
    | primaryFunction _ h | primaryClass h | primaryObject h | primaryName _ h =>
      exact .inr (h.exits rfl e List.mem_cons_self)
    | parenthesized | arrayLiteral => exact .inr (.self rfl (.refl _))
  | chainNew hnew =>
    cases hnew with
    | new _ _ _ hpoint => exact absurd hrest hpoint
    | newCall => exact .inr (.self rfl (.refl _))
  | propertyAccess | elementAccess | call => exact .inr (.self rfl (.refl _))

/-- What the trees of the phrases of a category are. -/
def Category.Sets (c : Category) (tree : SyntaxTree) : Prop :=
  tree.Everywhere SyntaxTree.KeepsApart ∧ (tree.isListed = true → c.givesListed = true)

/-- What is derived is kept apart: only lists have rules for holes and methods, and what has to end in
a certain way is read by rules that end so. -/
theorem Derives.sets (h : Derives c Γ d T ts rest) : ∀ tree ∈ ts, c.Sets tree := by
  have hexits : ∀ (c : Category) {Γ d T ts rest}, c.isSettled = true → Derives c Γ d T ts rest →
      ∀ tree ∈ ts, tree.Exits .settled := fun _ _ _ _ _ _ hc h => h.exits hc
  induction h with
  | primaryKeyword hk =>
    obtain ⟨-, hlisted, hchildren, hapart⟩ := apart_of_keywordShape? hk
    simp [Category.Sets, hlisted, hchildren, hapart]
  | propertyAccess hobject hpoint hname iho ihn =>
    have hends := hobject.exits_of_object hpoint
    have hidentifier : ∀ {Γ d T n rest}, Derives .word Γ d T [n] rest → n.isIdentifier = true := by
      intro Γ d T n rest h
      cases h
      rfl
    simp_all [Category.Sets, Category.givesListed, SyntaxTree.keepsApart_iff,
      SyntaxTree.FitsTogether, ShapeOf.isListed, ShapeOf.settledParts, ShapeOf.children,
      hidentifier hname]
  | _ =>
    -- Parts that have to end so that anything may follow.
    try have hstatements := hexits .statements rfl ‹_›
    try have hstatement := hexits .statement rfl ‹_›
    try have hmembers := hexits .classMembers rfl ‹_›
    try have hname := hexits (.declaredName _) rfl ‹_›
    try have hexported := Derives.exits_of_isDeclaration ‹Derives .defaultExport _ _ _ _ _›
    try simp only [Category.Sets, Category.givesListed, SyntaxTree.everywhere_node_iff,
      SyntaxTree.keepsApart_iff, SyntaxTree.FitsTogether, SyntaxTree.isListed_node,
      ShapeOf.isListed, ShapeOf.holdsListed, ShapeOf.settledParts, ShapeOf.children,
      List.not_mem_nil, List.mem_cons, List.mem_append, Option.mem_toList, Option.toList_some,
      Option.toList_none, Option.some.injEq, forall_eq_or_imp, forall_eq, false_implies, or_false,
      implies_true, Bool.false_eq_true, and_true, true_and] at *
    try grind -linarith [List.mem_of_mem_head?, TokenKind.isBinaryOperator]

/-! ### Numbers -/

/-- That all numbers ahead are as the scanner reads them. -/
def AllNumeral (T : List Token) : Prop :=
  ∀ t ∈ T, t.kind = .number → Literal.IsNumeral t.value.toList

@[simp, grind =] theorem allNumeral_cons {t : Token} {T : List Token} :
    AllNumeral (t :: T) ↔
      (t.kind = .number → Literal.IsNumeral t.value.toList) ∧ AllNumeral T :=
  List.forall_mem_cons

theorem allNumeral_of_isSuffix {T T' : List Token} (h : T' <:+ T) (hT : AllNumeral T) :
    AllNumeral T' := fun t ht => hT t (h.mem ht)

/-- Where the scanner finds no fault, all numbers are whole. -/
theorem allNumeral_ofSource {cs : List Char} (h : (TokenStream.ofSource cs).faults = #[]) :
    AllNumeral (TokenStream.ofSource cs).tokens.toList := by
  refine Scanner.forall_tokensAhead (fun s hfaults hnumber => ?_) h
  rw [Scanner.scan, String.toList_ofList]
  refine Lexeme.isNumeral_read hnumber ?_
  have hnone := congrArg Array.toList hfaults
  simp only [Scanner.scan, Array.toList_appendList, List.append_eq_nil_iff] at hnone
  exact hnone.2

/-- The numbers in a phrase are those of its tokens. -/
theorem Derives.hasNumeral (h : Derives c Γ d T ts rest) :
    AllNumeral T → AllNumeral rest ∧ ∀ tree ∈ ts, tree.Everywhere SyntaxTree.HasNumeral := by
  have haccepts : ∀ (k : TokenKind) {b} {T T' : List Token}, Accepts k b T T' →
      AllNumeral T → AllNumeral T' := fun _ _ _ _ h => allNumeral_of_isSuffix h.isSuffix
  induction h with
  | primaryKeyword hk =>
    intro hT
    have hword : ∀ {k : TokenKind} {shape : ShapeOf SyntaxTree}, keywordShape? k = some shape →
        SyntaxTree.HasNumeral shape ∧ shape.children = [] := by
      intro k shape hshape
      cases k <;> cases hshape <;> exact ⟨trivial, rfl⟩
    obtain ⟨hnumeral, hchildren⟩ := hword hk
    refine ⟨(allNumeral_cons.1 hT).2, ?_⟩
    simp [hnumeral, hchildren]
  | _ =>
    intro hT
    -- What is passed without being a phrase of its own.
    try have hterminates := allNumeral_of_isSuffix (Terminates.isSuffix ‹_›)
    try have hasync := haccepts .asyncKeyword ‹_›
    try have hstar := haccepts .star ‹_›
    try have hellipsis := haccepts .ellipsis ‹_›
    try have hmodifier := allNumeral_of_isSuffix (isSuffix_passModifiers ‹_›)
    try have hword := allNumeral_of_isSuffix (isSuffix_passStatic ‹_›)
    simp only [allNumeral_cons, SyntaxTree.everywhere_node_iff, SyntaxTree.HasNumeral,
      ShapeOf.children, List.not_mem_nil, List.mem_cons, List.mem_append, Option.mem_toList,
      Option.toList_some, Option.toList_none, forall_eq_or_imp, false_implies, implies_true,
      and_true, true_and] at *
    try grind -linarith [List.mem_of_mem_head?]

end Grammar

end FunctionNaming
