import FunctionNaming.Proofs.Grammar.First

/-!
The operator `in` in the first part of the head of a loop, where it is no operator. Most marks and all
bodies set this aside, so an operation with `in` is in the way only if it stands outside of them. Such
an operation is called exposed. What is read in the head of a loop exposes none, and what exposes none
is read there as it is read elsewhere.
-/

namespace FunctionNaming

open SyntaxTree (node)

/-- The parts of a shape that are read in the surroundings of the whole. The others stand between
marks that set the surroundings aside, or belong to a function. -/
def ShapeOf.openParts {ν : Type} : ShapeOf ν → List ν
  | .function role parts => if role = .arrow then parts.parameters else parts.name.toList
  | .method _ _ _ name _ _ | .accessor _ _ name _ _ => name.toList
  | .classConstructor .. | .arrayLiteral _ | .parenthesized _ => []
  | .elementAccess object _ => object.toList
  | .call callee _ | .new callee _ => callee.toList
  | .conditional condition _ whenFalse => condition.toList ++ whenFalse.toList
  | shape => shape.children

/-- Whether the shape is an operation with `in`. -/
def ShapeOf.isIn {ν : Type} : ShapeOf ν → Bool
  | .binary _ operator _ => operator == .inKeyword
  | _ => false

namespace SyntaxTree

/-- That an operation with `in` is found in the tree through open parts only. -/
inductive ExposesIn : SyntaxTree → Prop
  | operation {shape : ShapeOf SyntaxTree} : shape.isIn = true → ExposesIn (node shape)
  | part {shape : ShapeOf SyntaxTree} {t : SyntaxTree} :
      t ∈ shape.openParts → t.ExposesIn → ExposesIn (node shape)

/-- That none of the trees exposes an operation with `in`. -/
def HideIn (ts : List SyntaxTree) : Prop := ∀ t ∈ ts, ¬t.ExposesIn

variable {t : SyntaxTree} {ts ts' : List SyntaxTree} {shape : ShapeOf SyntaxTree}

theorem hideIn_nil : HideIn [] ↔ True := iff_true_intro fun _ h => absurd h List.not_mem_nil

theorem hideIn_cons : HideIn (t :: ts) ↔ ¬t.ExposesIn ∧ HideIn ts := List.forall_mem_cons

theorem hideIn_singleton : HideIn [t] ↔ ¬t.ExposesIn := by
  rw [hideIn_cons, hideIn_nil, and_true]

theorem hideIn_append : HideIn (ts ++ ts') ↔ HideIn ts ∧ HideIn ts' := List.forall_mem_append

theorem not_exposesIn_node :
    ¬(node shape).ExposesIn ↔ shape.isIn = false ∧ HideIn shape.openParts := by
  constructor
  · intro h
    exact ⟨Bool.eq_false_iff.2 fun hin => h (.operation hin), fun t ht hin => h (.part ht hin)⟩
  · rintro ⟨hshape, hparts⟩ (hin | ⟨ht, hin⟩)
    · exact Bool.false_ne_true (hshape.symm.trans hin)
    · exact hparts _ ht hin

/-- Names and other trees without parts expose nothing. -/
theorem not_exposesIn_of_children (hshape : shape.isIn = false) (hparts : shape.openParts = []) :
    ¬(node shape).ExposesIn :=
  not_exposesIn_node.2 ⟨hshape, hparts ▸ hideIn_nil.2 trivial⟩

end SyntaxTree

namespace Grammar

open SyntaxTree

/-! ### Surroundings -/

section Surroundings

variable (Γ : Context) (above : Nat) (k : TokenKind) (T : List Token) {isGenerator : Bool}
  {role : FunctionRole}

theorem binds_insideForHead : Γ.insideForHead.binds k = Γ.binds k := rfl

theorem inGenerator_insideForHead : Γ.insideForHead.inGenerator = Γ.inGenerator := rfl

theorem outsideForHead_insideForHead : Γ.insideForHead.outsideForHead = Γ.outsideForHead := rfl

theorem insideForHead_insideForHead : Γ.insideForHead.insideForHead = Γ.insideForHead := rfl

theorem inForHead_nameContext : (nameContext Γ isGenerator role).inForHead = Γ.inForHead := by
  cases role <;> rfl

theorem insideForHead_nameContext :
    (nameContext Γ isGenerator role).insideForHead =
      nameContext Γ.insideForHead isGenerator role := by
  cases role <;> rfl

theorem startsArrow_insideForHead : startsArrow Γ.insideForHead T = startsArrow Γ T := rfl

theorem startsExpressionStatement_insideForHead :
    startsExpressionStatement Γ.insideForHead T = startsExpressionStatement Γ T := rfl

theorem startsForExpression_insideForHead :
    startsForExpression Γ.insideForHead T = startsForExpression Γ T := rfl

theorem stopsOperands_insideForHead :
    stopsOperands Γ.insideForHead above k = (stopsOperands Γ above k || k == .inKeyword) := by
  rw [stopsOperands, stopsOperands]
  cases k.precedence? with
  | none => rfl
  | some precedence => cases k == .inKeyword <;> simp [Context.insideForHead]

end Surroundings

/-! ### Phrases in the head of a loop -/

/-- Whether phrases of the category have no tree or one. -/
def Category.isOptional : Category → Bool
  | .declaredName _ | .initializer | .heritage | .returnValue | .alternative | .forInitializer
  | .expressionBefore _ => true
  | _ => false

/-- Whether phrases of the category are read in their own surroundings. -/
def Category.isOpen : Category → Bool
  | .signature .. | .arguments => false
  | .function role _ => decide (role ≠ .arrow)
  | .list _ _ item => item.isOpen
  | _ => true

variable {c : Category} {Γ : Context} {d : Nat} {T rest : List Token} {ts : List SyntaxTree}

theorem Derives.toList_head? (h : Derives c Γ d T ts rest) (hc : c.isOptional = true) :
    ts.head?.toList = ts := by
  induction h <;> first | rfl | cases hc

theorem not_exposesIn_keyword {k : TokenKind} {shape : ShapeOf SyntaxTree}
    (h : keywordShape? k = some shape) : ¬(node shape).ExposesIn := by
  cases k <;> cases h <;> exact not_exposesIn_of_children rfl rfl

theorem not_exposesIn_of_isConstructorTree {n : SyntaxTree} (h : isConstructorTree n = true) :
    ¬n.ExposesIn := by
  obtain ⟨shape⟩ := n
  cases shape <;> first | cases h | exact not_exposesIn_of_children rfl rfl

theorem Derives.hideIn_of_declaredName {required : Bool}
    (h : Derives (.declaredName required) Γ d T ts rest) : HideIn ts := by
  cases h with
  | declaredName h =>
    cases h
    exact hideIn_singleton.2 (not_exposesIn_of_children rfl rfl)
  | noName => exact hideIn_nil.2 trivial

section HeadOfLoop

attribute [local grind] Category.isOptional
attribute [local grind →] Derives.toList_head?
attribute [local grind =] binds_insideForHead inGenerator_insideForHead
  outsideForHead_insideForHead insideForHead_insideForHead inForHead_nameContext
  startsArrow_insideForHead startsExpressionStatement_insideForHead
  startsForExpression_insideForHead stopsOperands_insideForHead
  Context.startsBinding_insideForHead

/-- What is read in the head of a loop exposes no operation with `in`. -/
theorem Derives.hideIn (h : Derives c Γ d T ts rest) (hΓ : Γ.inForHead = true)
    (hc : c.isOpen = true) : HideIn ts := by
  have hassignment : TokenKind.isAssignment .inKeyword = false := rfl
  induction h
  case primaryKeyword h => exact hideIn_singleton.2 (not_exposesIn_keyword h)
  all_goals try simp only [hideIn_nil, hideIn_cons, hideIn_append, not_exposesIn_node,
    ShapeOf.openParts, ShapeOf.children, ShapeOf.isIn, Option.toList_some, Option.toList_none,
    Category.isOpen] at *
  all_goals grind -linarith [stopsOperands, Context.insideForHead]

/-- What exposes no operation with `in` can be read in the head of a loop. -/
theorem Derives.insideForHead (h : Derives c Γ d T ts rest) (hts : c.isOpen = true → HideIn ts) :
    Derives c Γ.insideForHead d T ts rest := by
  induction h
  case function ha ht hs hn hsig ihn ihsig =>
    have hn' := ihn fun _ => hn.hideIn_of_declaredName
    rw [insideForHead_nameContext] at hn'
    exact .function ha ht hs hn' (ihsig nofun)
  case primaryKeyword h => exact .primaryKeyword h
  case classConstructor hstatic hpass _ hn hparen _ ihn ihsig =>
    have hx := ihn fun _ => hideIn_singleton.2 (not_exposesIn_of_isConstructorTree hn)
    exact .classConstructor hstatic hpass hx hn hparen (ihsig nofun)
  all_goals try simp only [hideIn_nil, hideIn_cons, hideIn_append, not_exposesIn_node,
    ShapeOf.openParts, ShapeOf.children, ShapeOf.isIn, Option.toList_some, Option.toList_none,
    Category.isOpen, forall_const,
    false_implies, and_true, true_and, Bool.false_eq_true] at *
  case word => grind -linarith [Derives.word]
  case name => grind -linarith [Derives.name]
  case declaredName => grind -linarith [Derives.declaredName]
  case noName => grind -linarith [Derives.noName]
  case string => grind -linarith [Derives.string]
  case number => grind -linarith [Derives.number]
  case literalName => grind -linarith [Derives.literalName]
  case wordName => grind -linarith [Derives.wordName]
  case computedName => grind -linarith [Derives.computedName]
  case noInitializer => grind -linarith [Derives.noInitializer]
  case initializer => grind -linarith [Derives.initializer]
  case restProperty => grind -linarith [Derives.restProperty]
  case shorthandBinding => grind -linarith [Derives.shorthandBinding]
  case namedBinding => grind -linarith [Derives.namedBinding]
  case keyedBinding => grind -linarith [Derives.keyedBinding]
  case restElement => grind -linarith [Derives.restElement]
  case elementBinding => grind -linarith [Derives.elementBinding]
  case boundName => grind -linarith [Derives.boundName]
  case objectPattern => grind -linarith [Derives.objectPattern]
  case arrayPattern => grind -linarith [Derives.arrayPattern]
  case declarator => grind -linarith [Derives.declarator]
  case lastDeclarator => grind -linarith [Derives.lastDeclarator]
  case moreDeclarators => grind -linarith [Derives.moreDeclarators]
  case variableList => grind -linarith [Derives.variableList]
  case parameter => grind -linarith [Derives.parameter]
  case listEnd => grind -linarith [Derives.listEnd]
  case listLast => grind -linarith [Derives.listLast]
  case listMore => grind -linarith [Derives.listMore]
  case listHole => grind -linarith [Derives.listHole]
  case statementsEnd => grind -linarith [Derives.statementsEnd]
  case statementsMore => grind -linarith [Derives.statementsMore]
  case block => grind -linarith [Derives.block]
  case signature => grind -linarith [Derives.signature]
  case groupParameters => grind -linarith [Derives.groupParameters]
  case nameParameter => grind -linarith [Derives.nameParameter]
  case arrowBlock => grind -linarith [Derives.arrowBlock]
  case arrowExpression => grind -linarith [Derives.arrowExpression]
  case arrow => grind -linarith [Derives.arrow]
  case spread => grind -linarith [Derives.spread]
  case spreadMember => grind -linarith [Derives.spreadMember]
  case accessorMember => grind -linarith [Derives.accessorMember]
  case methodMember => grind -linarith [Derives.methodMember]
  case valueMember => grind -linarith [Derives.valueMember]
  case shorthandMember => grind -linarith [Derives.shorthandMember]
  case objectLiteral => grind -linarith [Derives.objectLiteral]
  case classAccessor => grind -linarith [Derives.classAccessor]
  case classMethod => grind -linarith [Derives.classMethod]
  case classField => grind -linarith [Derives.classField]
  case classMembersEnd => grind -linarith [Derives.classMembersEnd]
  case classMembersSkip => grind -linarith [Derives.classMembersSkip]
  case classMembersMore => grind -linarith [Derives.classMembersMore]
  case noHeritage => grind -linarith [Derives.noHeritage]
  case heritage => grind -linarith [Derives.heritage]
  case classLike => grind -linarith [Derives.classLike]
  case sequenceFirst => grind -linarith [Derives.sequenceFirst]
  case sequenceNext => grind -linarith [Derives.sequenceNext]
  case expression => grind -linarith [Derives.expression]
  case yieldAlone => grind -linarith [Derives.yieldAlone]
  case yieldValue => grind -linarith [Derives.yieldValue]
  case yieldAll => grind -linarith [Derives.yieldAll]
  case noCondition => grind -linarith [Derives.noCondition]
  case conditional => grind -linarith [Derives.conditional]
  case assignmentYield => grind -linarith [Derives.assignmentYield]
  case assignmentArrow => grind -linarith [Derives.assignmentArrow]
  case noAssignment => grind -linarith [Derives.noAssignment]
  case assignment => grind -linarith [Derives.assignment]
  case operandsFirst => grind -linarith [Derives.operandsFirst]
  case operandsNext => grind -linarith [Derives.operandsNext]
  case binary => grind -linarith [Derives.binary]
  case prefixed => grind -linarith [Derives.prefixed]
  case postfixed => grind -linarith [Derives.postfixed]
  case operand => grind -linarith [Derives.operand]
  case primaryFunction => grind -linarith [Derives.primaryFunction]
  case primaryClass => grind -linarith [Derives.primaryClass]
  case parenthesized => grind -linarith [Derives.parenthesized]
  case arrayLiteral => grind -linarith [Derives.arrayLiteral]
  case primaryObject => grind -linarith [Derives.primaryObject]
  case primaryLiteral => grind -linarith [Derives.primaryLiteral]
  case primaryName => grind -linarith [Derives.primaryName]
  case elementSpread => grind -linarith [Derives.elementSpread]
  case element => grind -linarith [Derives.element]
  case arguments => grind -linarith [Derives.arguments]
  case chainFirst => grind -linarith [Derives.chainFirst]
  case chainNew => grind -linarith [Derives.chainNew]
  case propertyAccess => grind -linarith [Derives.propertyAccess]
  case elementAccess => grind -linarith [Derives.elementAccess]
  case call => grind -linarith [Derives.call]
  case leftHandSide => grind -linarith [Derives.leftHandSide]
  case new => grind -linarith [Derives.new]
  case newCall => grind -linarith [Derives.newCall]
  case variableStatement => grind -linarith [Derives.variableStatement]
  case noReturnValue => grind -linarith [Derives.noReturnValue]
  case returnValue => grind -linarith [Derives.returnValue]
  case noAlternative => grind -linarith [Derives.noAlternative]
  case alternative => grind -linarith [Derives.alternative]
  case noForInitializer => grind -linarith [Derives.noForInitializer]
  case forVariables => grind -linarith [Derives.forVariables]
  case forExpression => grind -linarith [Derives.forExpression]
  case noExpression => grind -linarith [Derives.noExpression]
  case expressionBefore => grind -linarith [Derives.expressionBefore]
  case exportVariables => grind -linarith [Derives.exportVariables]
  case exportFunction => grind -linarith [Derives.exportFunction]
  case exportClass => grind -linarith [Derives.exportClass]
  case defaultFunction => grind -linarith [Derives.defaultFunction]
  case defaultClass => grind -linarith [Derives.defaultClass]
  case defaultExpression => grind -linarith [Derives.defaultExpression]
  case blockStatement => grind -linarith [Derives.blockStatement]
  case emptyStatement => grind -linarith [Derives.emptyStatement]
  case «variables» => grind -linarith [Derives.«variables»]
  case functionStatement => grind -linarith [Derives.functionStatement]
  case classStatement => grind -linarith [Derives.classStatement]
  case ifStatement => grind -linarith [Derives.ifStatement]
  case whileStatement => grind -linarith [Derives.whileStatement]
  case forStatement => grind -linarith [Derives.forStatement]
  case returnStatement => grind -linarith [Derives.returnStatement]
  case throwStatement => grind -linarith [Derives.throwStatement]
  case exportDefault => grind -linarith [Derives.exportDefault]
  case exportDeclaration => grind -linarith [Derives.exportDeclaration]
  case expressionStatement => grind -linarith [Derives.expressionStatement]
  case statement => grind -linarith [Derives.statement]

end HeadOfLoop

/-- A phrase is read in the head of a loop if and only if it exposes no operation with `in`. -/
theorem Derives.insideForHead_iff (h : Derives c Γ d T ts rest) (hc : c.isOpen = true) :
    Derives c Γ.insideForHead d T ts rest ↔ HideIn ts :=
  ⟨fun h' => h'.hideIn rfl hc, fun hts => h.insideForHead fun _ => hts⟩

end Grammar

end FunctionNaming
