import FunctionNaming.Proofs.Grammar.Ahead
import FunctionNaming.Proofs.Syntax.SyntaxTree

/-!
The language that the grammar reads, as derivations. `Derives c Γ d T ts rest` says that the tokens
`T`, in the surroundings `Γ` and with `d` rules of nesting under way, begin with a phrase of the
category `c`, that `ts` are the trees of this phrase, and that the tokens `rest` follow it.

Phrases that are built up from the left, such as sums and chains of accesses, are derived so; what
must not follow them is asked for once, where the phrase ends.
-/

namespace FunctionNaming.Grammar

/-- The sorts of phrases. -/
inductive Category where
  -- names
  | word | name | declaredName (required : Bool) | literal | memberName
  -- bindings
  | initializer | objectPatternElement | arrayPatternElement | bindingName | declarator
  | declarators | variableList | parameter
  /-- Phrases separated by commas, up to a `close`. -/
  | list (holes : Bool) (close : TokenKind) (element : Category)
  -- functions
  | statements | block | signature (isAsync isGenerator : Bool)
  | function (role : FunctionRole) (nameRequired : Bool)
  | arrowParameters | arrowBody | arrow
  -- members
  | spread | objectMember | objectLiteral | classMember | classMembers
  | heritage | classLike (role : ClassRole) (nameRequired : Bool)
  -- expressions
  /-- Expressions joined by commas, the last of which may be followed by more. -/
  | sequence
  | expression | yield | conditional | assignment
  /-- Operands joined by operators, the last of which may be followed by more. -/
  | operands (above : Nat)
  | binary (above : Nat)
  | unary | element | primary | arguments
  /-- An expression with accesses, and calls if allowed, which may be followed by more. -/
  | chain (calls : Bool)
  | leftHandSide | construction
  -- statements
  | variableStatement | returnValue | alternative | forInitializer
  | expressionBefore (k : TokenKind)
  | exportedDeclaration | defaultExport | bareStatement | statement
  deriving DecidableEq

/-- How a word that is an expression by itself is read. -/
def keywordShape? : TokenKind → Option (ShapeOf SyntaxTree)
  | .thisKeyword => some .thisExpression
  | .superKeyword => some .superExpression
  | .trueKeyword => some .trueLiteral
  | .falseKeyword => some .falseLiteral
  | .nullKeyword => some .nullLiteral
  | _ => none

/-- The kind of the word that opens a list of variables. -/
def variableKind : VariableKeyword → TokenKind
  | .var => .varKeyword
  | .let => .letKeyword
  | .const => .constKeyword

/-- The surroundings of the name of a function. -/
def nameContext (Γ : Context) (isGenerator : Bool) : FunctionRole → Context
  | .expression => Γ.ofGenerator isGenerator
  | _ => Γ

/-- Whether a member of this name is the constructor of its class. -/
def isConstructorTree : SyntaxTree → Bool
  | .node shape => shape.namesConstructor

/-- Whether an operator of kind `k` does not go on with operands that bind more tightly than
`above`. -/
def stopsOperands (Γ : Context) (above : Nat) (k : TokenKind) : Bool :=
  match k.precedence? with
  | some precedence => decide (precedence ≤ above) || (k == .inKeyword && Γ.inForHead)
  | none => true

open SyntaxTree (node)

/-- That a phrase stands at the beginning of the tokens ahead. -/
inductive Derives : Category → Context → Nat → List Token → List SyntaxTree → List Token → Prop
  /- Names and literals. -/
  | word : t.kind.isWord → Derives .word Γ d (t :: T) [node (.identifier t.value)] T
  | name : Γ.binds t.kind → Derives .name Γ d (t :: T) [node (.identifier t.value)] T
  | declaredName : Derives .name Γ d T [n] rest →
      Derives (.declaredName required) Γ d T [n] rest
  | noName : ¬Γ.binds (kindOf T) → Derives (.declaredName false) Γ d T [] T
  | string : t.kind = .string →
      Derives .literal Γ d (t :: T)
        [node (.stringLiteral (t.text.toList.headD '"') t.value)] T
  | number : t.kind = .number → Derives .literal Γ d (t :: T) [node (.numberLiteral t.value)] T
  | literalName : Derives .literal Γ d T [n] rest → Derives .memberName Γ d T [n] rest
  | wordName : Derives .word Γ d T [n] rest → Derives .memberName Γ d T [n] rest
  | computedName : t.kind = .openBracket → Derives .assignment Γ d T [e] (c :: rest) →
      c.kind = .closeBracket →
      Derives .memberName Γ d (t :: T) [node (.computedName (some e))] rest
  /- Bindings. -/
  | noInitializer : kindOf T ≠ .assign → Derives .initializer Γ d T [] T
  | initializer : t.kind = .assign → Derives .assignment Γ d T [e] rest →
      Derives .initializer Γ d (t :: T) [e] rest
  | restProperty : t.kind = .ellipsis → Derives .name Γ d T [n] rest →
      Derives .objectPatternElement Γ d (t :: T)
        [node (.patternElement true none (some n) none)] rest
  | shorthandBinding : Derives .name Γ d T [n] T₁ → kindOf T₁ ≠ .colon →
      Derives .initializer Γ d T₁ v rest →
      Derives .objectPatternElement Γ d T
        [node (.patternElement false none (some n) v.head?)] rest
  | namedBinding : Derives .name Γ d T [p] (c :: T₁) → c.kind = .colon →
      Derives .bindingName Γ d T₁ [n] T₂ → Derives .initializer Γ d T₂ v rest →
      Derives .objectPatternElement Γ d T
        [node (.patternElement false (some p) (some n) v.head?)] rest
  | keyedBinding : ¬Γ.binds (kindOf T) → Derives .memberName Γ d T [p] (c :: T₁) →
      c.kind = .colon → Derives .bindingName Γ d T₁ [n] T₂ → Derives .initializer Γ d T₂ v rest →
      Derives .objectPatternElement Γ d T
        [node (.patternElement false (some p) (some n) v.head?)] rest
  | restElement : t.kind = .ellipsis → Derives .bindingName Γ d T [n] rest →
      Derives .arrayPatternElement Γ d (t :: T)
        [node (.patternElement true none (some n) none)] rest
  | elementBinding : Derives .bindingName Γ d T [n] T₁ → Derives .initializer Γ d T₁ v rest →
      Derives .arrayPatternElement Γ d T
        [node (.patternElement false none (some n) v.head?)] rest
  | boundName : Derives .name Γ d T [n] rest → Derives .bindingName Γ d T [n] rest
  | objectPattern : t.kind = .openBrace →
      Derives (.list false .closeBrace .objectPatternElement) Γ d T es (c :: rest) →
      c.kind = .closeBrace →
      Derives .bindingName Γ d (t :: T) [node (.pattern .object es)] rest
  | arrayPattern : t.kind = .openBracket →
      Derives (.list true .closeBracket .arrayPatternElement) Γ d T es (c :: rest) →
      c.kind = .closeBracket →
      Derives .bindingName Γ d (t :: T) [node (.pattern .array es)] rest
  | declarator : Derives .bindingName Γ d T [n] T₁ → Derives .initializer Γ d T₁ v rest →
      Derives .declarator Γ d T [node (.declarator (some n) v.head?)] rest
  | lastDeclarator : Derives .declarator Γ d T [x] rest → kindOf rest ≠ .comma →
      Derives .declarators Γ d T [x] rest
  | moreDeclarators : Derives .declarator Γ d T [x] (c :: T₁) → c.kind = .comma →
      Derives .declarators Γ d T₁ xs rest → Derives .declarators Γ d T (x :: xs) rest
  | variableList : t.kind = variableKind keyword → Derives .declarators Γ d T xs rest →
      Derives .variableList Γ d (t :: T) [node (.variableList keyword xs)] rest
  | parameter : Accepts .ellipsis isRest T T₁ → Derives .bindingName Γ d T₁ [n] T₂ →
      Derives .initializer Γ d T₂ v rest →
      Derives .parameter Γ d T [node (.parameter isRest (some n) v.head?)] rest
  /- Lists. -/
  | listEnd : kindOf T = close ∨ kindOf T = .endOfFile →
      Derives (.list holes close item) Γ d T [] T
  | listLast : Derives item Γ d T [x] rest → kindOf rest ≠ .comma →
      Derives (.list holes close item) Γ d T [x] rest
  | listMore : Derives item Γ d T [x] (c :: T₁) → c.kind = .comma →
      Derives (.list holes close item) Γ d T₁ xs rest →
      Derives (.list holes close item) Γ d T (x :: xs) rest
  | listHole : c.kind = .comma → Derives (.list true close item) Γ d T xs rest →
      Derives (.list true close item) Γ d (c :: T) (node .hole :: xs) rest
  /- Functions. -/
  | statementsEnd : kindOf T = .closeBrace ∨ kindOf T = .endOfFile →
      Derives .statements Γ d T [] T
  | statementsMore : Derives .statement Γ d T [x] T₁ → Derives .statements Γ d T₁ xs rest →
      Derives .statements Γ d T (x :: xs) rest
  | block : d < maxNesting → t.kind = .openBrace →
      Derives .statements Γ (d + 1) T xs (c :: rest) → c.kind = .closeBrace →
      Derives .block Γ d (t :: T) [node (.block xs)] rest
  | signature : t.kind = .openParen →
      Derives (.list false .closeParen .parameter) (.ofFunction isAsync isGenerator) d T ps (c :: T₁) →
      c.kind = .closeParen → Derives .block (.ofFunction isAsync isGenerator) d T₁ [b] rest →
      Derives (.signature isAsync isGenerator) Γ d (t :: T) (ps ++ [b]) rest
  | function : Accepts .asyncKeyword isAsync T (t :: T₁) → t.kind = .functionKeyword →
      Accepts .star isGenerator T₁ T₂ →
      Derives (.declaredName nameRequired) (nameContext Γ isGenerator role) d T₂ n T₃ →
      Derives (.signature isAsync isGenerator) Γ d T₃ (ps ++ [b]) rest →
      Derives (.function role nameRequired) Γ d T
        [node (.function role ⟨isAsync, isGenerator, n.head?, ps, some b⟩)] rest
  | groupParameters : t.kind = .openParen →
      Derives (.list false .closeParen .parameter) Γ d T ps (c :: rest) → c.kind = .closeParen →
      Derives .arrowParameters Γ d (t :: T) ps rest
  | nameParameter : Derives .name Γ d T [n] rest →
      Derives .arrowParameters Γ d T [node (.parameter false (some n) none)] rest
  | arrowBlock : Derives .block Γ d T [b] rest → Derives .arrowBody Γ d T [b] rest
  | arrowExpression : kindOf T ≠ .openBrace → Derives .assignment Γ d T [b] rest →
      Derives .arrowBody Γ d T [b] rest
  | arrow : Accepts .asyncKeyword isAsync T T₁ → Derives .arrowParameters Γ d T₁ ps (a :: T₂) →
      a.kind = .arrow → Derives .arrowBody (.ofFunction isAsync false) d T₂ [b] rest →
      Derives .arrow Γ d T [node (.function .arrow ⟨isAsync, false, none, ps, some b⟩)] rest
  /- Members. -/
  | spread : t.kind = .ellipsis → Derives .assignment Γ d T [e] rest →
      Derives .spread Γ d (t :: T) [node (.spread (some e))] rest
  | spreadMember : Derives .spread Γ d T [e] rest → Derives .objectMember Γ d T [e] rest
  | accessorMember : passModifiers false T = (⟨false, false, false, some role⟩, T₁) →
      Derives .memberName Γ d T₁ [n] T₂ → Derives (.signature false false) Γ d T₂ (ps ++ [b]) rest →
      Derives .objectMember Γ d T [node (.accessor role false (some n) ps (some b))] rest
  | methodMember : passModifiers false T = (⟨false, isAsync, isGenerator, none⟩, T₁) →
      Derives .memberName Γ d T₁ [n] T₂ → isAsync || isGenerator || kindOf T₂ == .openParen →
      Derives (.signature isAsync isGenerator) Γ d T₂ (ps ++ [b]) rest →
      Derives .objectMember Γ d T
        [node (.method false isAsync isGenerator (some n) ps (some b))] rest
  | valueMember : passModifiers false T = (⟨false, false, false, none⟩, T₁) →
      Derives .memberName Γ d T₁ [n] (c :: T₂) → c.kind = .colon →
      Derives .assignment Γ d T₂ [v] rest →
      Derives .objectMember Γ d T [node (.propertyAssignment (some n) (some v))] rest
  | shorthandMember : passModifiers false T = (⟨false, false, false, none⟩, T₁) →
      Γ.binds (kindOf T₁) → Derives .memberName Γ d T₁ [n] rest →
      kindOf rest ≠ .openParen → kindOf rest ≠ .colon →
      Derives .objectMember Γ d T [node (.shorthandProperty (some n))] rest
  | objectLiteral : t.kind = .openBrace →
      Derives (.list false .closeBrace .objectMember) Γ d T es (c :: rest) →
      c.kind = .closeBrace →
      Derives .objectLiteral Γ d (t :: T) [node (.objectLiteral es)] rest
  | classAccessor : passStatic T = (isStatic, T₀) →
      passModifiers isStatic T₀ = (⟨isStatic, false, false, some role⟩, T₁) →
      Derives .memberName Γ d T₁ [n] T₂ → Derives (.signature false false) Γ d T₂ (ps ++ [b]) rest →
      Derives .classMember Γ d T [node (.accessor role isStatic (some n) ps (some b))] rest
  | classConstructor : passStatic T = (false, T₀) →
      passModifiers false T₀ = (⟨false, false, false, none⟩, T₁) →
      Derives .memberName Γ d T₁ [n] T₂ → isConstructorTree n → kindOf T₂ = .openParen →
      Derives (.signature false false) Γ d T₂ (ps ++ [b]) rest →
      Derives .classMember Γ d T [node (.classConstructor ps (some b))] rest
  | classMethod : passStatic T = (isStatic, T₀) →
      passModifiers isStatic T₀ = (⟨isStatic, isAsync, isGenerator, none⟩, T₁) →
      Derives .memberName Γ d T₁ [n] T₂ → isAsync || isGenerator || kindOf T₂ == .openParen →
      isStatic || isAsync || isGenerator || !isConstructorTree n →
      Derives (.signature isAsync isGenerator) Γ d T₂ (ps ++ [b]) rest →
      Derives .classMember Γ d T
        [node (.method isStatic isAsync isGenerator (some n) ps (some b))] rest
  | classField : passStatic T = (isStatic, T₀) →
      passModifiers isStatic T₀ = (⟨isStatic, false, false, none⟩, T₁) →
      Derives .memberName Γ d T₁ [n] T₂ → kindOf T₂ ≠ .openParen →
      Derives .initializer Γ d T₂ v T₃ → Terminates T₃ rest →
      Derives .classMember Γ d T [node (.classField isStatic (some n) v.head?)] rest
  | classMembersEnd : kindOf T = .closeBrace ∨ kindOf T = .endOfFile →
      Derives .classMembers Γ d T [] T
  | classMembersSkip : t.kind = .semicolon → Derives .classMembers Γ d T xs rest →
      Derives .classMembers Γ d (t :: T) xs rest
  | classMembersMore : Derives .classMember Γ d T [x] T₁ → Derives .classMembers Γ d T₁ xs rest →
      Derives .classMembers Γ d T (x :: xs) rest
  | noHeritage : kindOf T ≠ .extendsKeyword → Derives .heritage Γ d T [] T
  | heritage : t.kind = .extendsKeyword → Derives .leftHandSide Γ d T [e] rest →
      Derives .heritage Γ d (t :: T) [e] rest
  | classLike : t.kind = .classKeyword → Derives (.declaredName nameRequired) Γ d T n T₁ →
      Derives .heritage Γ d T₁ h (o :: T₂) → o.kind = .openBrace →
      Derives .classMembers Γ d T₂ ms (c :: rest) → c.kind = .closeBrace →
      Derives (.classLike role nameRequired) Γ d (t :: T)
        [node (.classLike role n.head? h.head? ms)] rest
  /- The comma and assignment. -/
  | sequenceFirst : Derives .assignment Γ d T [e] rest → Derives .sequence Γ d T [e] rest
  | sequenceNext : Derives .sequence Γ d T [l] (c :: T₁) → c.kind = .comma →
      Derives .assignment Γ d T₁ [r] rest →
      Derives .sequence Γ d T [node (.binary (some l) .comma (some r))] rest
  | expression : Derives .sequence Γ d T [e] rest → kindOf rest ≠ .comma →
      Derives .expression Γ d T [e] rest
  | yieldAlone : t.kind = .yieldKeyword → isBroken T ∨ kindOf T ≠ .star → endsYieldAt T →
      Derives .yield Γ d (t :: T) [node (.yieldExpression false none)] T
  | yieldValue : t.kind = .yieldKeyword → isBroken T ∨ kindOf T ≠ .star → ¬endsYieldAt T →
      Derives .assignment Γ d T [e] rest →
      Derives .yield Γ d (t :: T) [node (.yieldExpression false (some e))] rest
  | yieldAll : t.kind = .yieldKeyword → s.kind = .star → ¬s.afterLineBreak →
      Derives .assignment Γ d T [e] rest →
      Derives .yield Γ d (t :: s :: T) [node (.yieldExpression true (some e))] rest
  | noCondition : Derives (.binary 0) Γ d T [e] rest → kindOf rest ≠ .question →
      Derives .conditional Γ d T [e] rest
  | conditional : Derives (.binary 0) Γ d T [e] (q :: T₁) → q.kind = .question →
      Derives .assignment Γ.outsideForHead d T₁ [a] (c :: T₂) → c.kind = .colon →
      Derives .assignment Γ d T₂ [b] rest →
      Derives .conditional Γ d T [node (.conditional (some e) (some a) (some b))] rest
  | assignmentYield : d < maxNesting → Γ.inGenerator → Derives .yield Γ (d + 1) T [e] rest →
      Derives .assignment Γ d T [e] rest
  | assignmentArrow : d < maxNesting → startsArrow Γ T → Derives .arrow Γ (d + 1) T [e] rest →
      Derives .assignment Γ d T [e] rest
  | noAssignment : d < maxNesting → ¬startsArrow Γ T → Derives .conditional Γ (d + 1) T [e] rest →
      ¬(kindOf rest).isAssignment → Derives .assignment Γ d T [e] rest
  | assignment : d < maxNesting → ¬startsArrow Γ T →
      Derives .conditional Γ (d + 1) T [l] (o :: T₁) → o.kind.isAssignment →
      Derives .assignment Γ (d + 1) T₁ [r] rest →
      Derives .assignment Γ d T [node (.binary (some l) o.kind (some r))] rest
  /- Operators. -/
  | operandsFirst : Derives .unary Γ d T [e] rest → Derives (.operands above) Γ d T [e] rest
  | operandsNext : Derives (.operands above) Γ d T [l] (o :: T₁) →
      o.kind.precedence? = some precedence → ¬stopsOperands Γ above o.kind →
      Derives (.binary precedence) Γ d T₁ [r] rest →
      Derives (.operands above) Γ d T [node (.binary (some l) o.kind (some r))] rest
  | binary : Derives (.operands above) Γ d T [e] rest → stopsOperands Γ above (kindOf rest) →
      Derives (.binary above) Γ d T [e] rest
  | prefixed : d < maxNesting → o.kind.isPrefixOperator → Derives .unary Γ (d + 1) T [e] rest →
      Derives .unary Γ d (o :: T) [node (.prefixed o.kind (some e))] rest
  | postfixed : Derives .leftHandSide Γ d T [e] (o :: rest) → o.kind.isPostfixOperator →
      ¬o.afterLineBreak → Derives .unary Γ d T [node (.postfixed o.kind (some e))] rest
  | operand : Derives .leftHandSide Γ d T [e] rest →
      ¬((kindOf rest).isPostfixOperator ∧ ¬isBroken rest) → Derives .unary Γ d T [e] rest
  /- Accesses and calls. -/
  | primaryFunction : startsFunction T → Derives (.function .expression false) Γ d T [e] rest →
      Derives .primary Γ d T [e] rest
  | primaryClass : Derives (.classLike .expression false) Γ d T [e] rest →
      Derives .primary Γ d T [e] rest
  | parenthesized : t.kind = .openParen →
      Derives .expression Γ.outsideForHead d T [e] (c :: rest) → c.kind = .closeParen →
      Derives .primary Γ d (t :: T) [node (.parenthesized (some e))] rest
  | arrayLiteral : t.kind = .openBracket →
      Derives (.list true .closeBracket .element) Γ.outsideForHead d T es (c :: rest) →
      c.kind = .closeBracket → Derives .primary Γ d (t :: T) [node (.arrayLiteral es)] rest
  | primaryObject : Derives .objectLiteral Γ d T [e] rest → Derives .primary Γ d T [e] rest
  | primaryKeyword : keywordShape? t.kind = some shape →
      Derives .primary Γ d (t :: T) [node shape] T
  | primaryLiteral : Derives .literal Γ d T [e] rest → Derives .primary Γ d T [e] rest
  | primaryName : ¬startsFunction T → Derives .name Γ d T [e] rest →
      Derives .primary Γ d T [e] rest
  | elementSpread : Derives .spread Γ d T [e] rest → Derives .element Γ d T [e] rest
  | element : Derives .assignment Γ d T [e] rest → Derives .element Γ d T [e] rest
  | arguments : t.kind = .openParen →
      Derives (.list false .closeParen .element) Γ.outsideForHead d T as (c :: rest) →
      c.kind = .closeParen → Derives .arguments Γ d (t :: T) as rest
  | chainFirst : Derives .primary Γ d T [e] rest → Derives (.chain calls) Γ d T [e] rest
  | chainNew : Derives .construction Γ d T [e] rest → Derives (.chain calls) Γ d T [e] rest
  | propertyAccess : Derives (.chain calls) Γ d T [o] (p :: T₁) → p.kind = .dot →
      Derives .word Γ d T₁ [n] rest →
      Derives (.chain calls) Γ d T [node (.propertyAccess (some o) (some n))] rest
  | elementAccess : Derives (.chain calls) Γ d T [o] (p :: T₁) → p.kind = .openBracket →
      Derives .expression Γ.outsideForHead d T₁ [a] (c :: rest) → c.kind = .closeBracket →
      Derives (.chain calls) Γ d T [node (.elementAccess (some o) (some a))] rest
  | call : Derives (.chain true) Γ d T [o] T₁ → Derives .arguments Γ d T₁ as rest →
      Derives (.chain true) Γ d T [node (.call (some o) as)] rest
  | leftHandSide : Derives (.chain true) Γ d T [e] rest → kindOf rest ≠ .dot →
      kindOf rest ≠ .openBracket → kindOf rest ≠ .openParen →
      Derives .leftHandSide Γ d T [e] rest
  | new : d < maxNesting → t.kind = .newKeyword →
      Derives (.chain false) Γ (d + 1) T [e] rest → kindOf rest ≠ .dot →
      kindOf rest ≠ .openBracket → kindOf rest ≠ .openParen →
      Derives .construction Γ d (t :: T) [node (.new (some e) none)] rest
  | newCall : d < maxNesting → t.kind = .newKeyword →
      Derives (.chain false) Γ (d + 1) T [e] T₁ → Derives .arguments Γ (d + 1) T₁ as rest →
      Derives .construction Γ d (t :: T) [node (.new (some e) (some as))] rest
  /- Statements. -/
  | variableStatement : Derives .variableList Γ d T [l] T₁ → Terminates T₁ rest →
      Derives .variableStatement Γ d T [node (.variableStatement (some l))] rest
  | noReturnValue : endsStatement T → Derives .returnValue Γ d T [] T
  | returnValue : ¬endsStatement T → Derives .expression Γ d T [e] rest →
      Derives .returnValue Γ d T [e] rest
  | noAlternative : kindOf T ≠ .elseKeyword → Derives .alternative Γ d T [] T
  | alternative : t.kind = .elseKeyword → Derives .statement Γ d T [x] rest →
      Derives .alternative Γ d (t :: T) [x] rest
  | noForInitializer : kindOf T = .semicolon → Derives .forInitializer Γ d T [] T
  | forVariables : Derives .variableList Γ.insideForHead d T [l] rest →
      Derives .forInitializer Γ d T [l] rest
  | forExpression : startsForExpression Γ T → kindOf T ≠ .semicolon →
      Derives .expression Γ.insideForHead d T [e] rest →
      Derives .forInitializer Γ d T [e] rest
  | noExpression : kindOf T = k → Derives (.expressionBefore k) Γ d T [] T
  | expressionBefore : kindOf T ≠ k → Derives .expression Γ d T [e] rest →
      Derives (.expressionBefore k) Γ d T [e] rest
  | exportVariables : Derives .variableStatement Γ d T [x] rest →
      Derives .exportedDeclaration Γ d T [x] rest
  | exportFunction : startsFunction T → Derives (.function .declaration true) Γ d T [x] rest →
      Derives .exportedDeclaration Γ d T [x] rest
  | exportClass : Derives (.classLike .declaration true) Γ d T [x] rest →
      Derives .exportedDeclaration Γ d T [x] rest
  | defaultFunction : startsFunction T → Derives (.function .declaration false) Γ d T [x] rest →
      Derives .defaultExport Γ d T [x] rest
  | defaultClass : Derives (.classLike .declaration false) Γ d T [x] rest →
      Derives .defaultExport Γ d T [x] rest
  | defaultExpression : ¬startsFunction T → kindOf T ≠ .classKeyword →
      Derives .assignment Γ d T [e] T₁ → Terminates T₁ rest → Derives .defaultExport Γ d T [e] rest
  | blockStatement : Derives .block Γ d T [x] rest → Derives .bareStatement Γ d T [x] rest
  | emptyStatement : t.kind = .semicolon →
      Derives .bareStatement Γ d (t :: T) [node .emptyStatement] T
  | variables : Derives .variableStatement Γ d T [x] rest →
      Derives .bareStatement Γ d T [x] rest
  | functionStatement : startsFunction T → Derives (.function .declaration true) Γ d T [x] rest →
      Derives .bareStatement Γ d T [x] rest
  | classStatement : Derives (.classLike .declaration true) Γ d T [x] rest →
      Derives .bareStatement Γ d T [x] rest
  | ifStatement : t.kind = .ifKeyword → o.kind = .openParen →
      Derives .expression Γ d T [e] (c :: T₁) → c.kind = .closeParen →
      Derives .statement Γ d T₁ [x] T₂ → Derives .alternative Γ d T₂ y rest →
      Derives .bareStatement Γ d (t :: o :: T) [node (.ifStatement (some e) (some x) y.head?)] rest
  | whileStatement : t.kind = .whileKeyword → o.kind = .openParen →
      Derives .expression Γ d T [e] (c :: T₁) → c.kind = .closeParen →
      Derives .statement Γ d T₁ [x] rest →
      Derives .bareStatement Γ d (t :: o :: T) [node (.whileStatement (some e) (some x))] rest
  | forStatement : t.kind = .forKeyword → o.kind = .openParen →
      Derives .forInitializer Γ d T i (s₁ :: T₁) → s₁.kind = .semicolon →
      Derives (.expressionBefore .semicolon) Γ d T₁ e (s₂ :: T₂) → s₂.kind = .semicolon →
      Derives (.expressionBefore .closeParen) Γ d T₂ u (c :: T₃) → c.kind = .closeParen →
      Derives .statement Γ d T₃ [x] rest →
      Derives .bareStatement Γ d (t :: o :: T)
        [node (.forStatement i.head? e.head? u.head? (some x))] rest
  | returnStatement : t.kind = .returnKeyword → Derives .returnValue Γ d T v T₁ →
      Terminates T₁ rest →
      Derives .bareStatement Γ d (t :: T) [node (.returnStatement v.head?)] rest
  | throwStatement : t.kind = .throwKeyword → Derives .expression Γ d T [e] T₁ →
      Terminates T₁ rest →
      Derives .bareStatement Γ d (t :: T) [node (.throwStatement (some e))] rest
  | exportDefault : t.kind = .exportKeyword → k.kind = .defaultKeyword →
      Derives .defaultExport Γ d T [x] rest →
      Derives .bareStatement Γ d (t :: k :: T) [node (.exportDefault (some x))] rest
  | exportDeclaration : t.kind = .exportKeyword → Derives .exportedDeclaration Γ d T [x] rest →
      Derives .bareStatement Γ d (t :: T) [node (.exportDeclaration (some x))] rest
  | expressionStatement : startsExpressionStatement Γ T → Derives .expression Γ d T [e] T₁ →
      Terminates T₁ rest →
      Derives .bareStatement Γ d T [node (.expressionStatement (some e))] rest
  | statement : d < maxNesting → Derives .bareStatement Γ (d + 1) T [x] rest →
      Derives .statement Γ d T [x] rest

end FunctionNaming.Grammar
